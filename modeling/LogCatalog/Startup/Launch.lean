import LogCatalog.Catalog
import LogCatalog.Settings.Configuration
import LogCatalog.Startup.Surroundings

/-!
# Launching the catalog

Finds the settings file, loads the settings and starts a catalog with them. Nothing is started unless
everything succeeds.
-/
namespace LogCatalog

inductive StartupError where
  | settings (path : String) (cause : SettingsError)
  | lifecycle (cause : LifecycleError)

def StartupError.message : StartupError → String
  | .settings path _ => "Failed to load logsearch config from " ++ path
  | .lifecycle _ => "Failed to start logsearch data retrieval service"

/-- Starts a catalog with these settings, after the event that announces it. -/
def Catalog.launch (settings : Settings) (path : String) (remote : Remote) (runtime : Bool) :
    List LogEvent × Except StartupError Catalog :=
  let announced := [.launching path settings.cacheHours.toNat]
  match (Catalog.new settings.policy remote).start runtime with
  | .ok catalog => (announced ++ catalog.work.log, .ok catalog)
  | .error cause => (announced, .error (.lifecycle cause))

namespace Surroundings

/-- The event that tells whether there is a settings file. -/
def loadingEvent (s : Surroundings) (path : String) : LogEvent :=
  if (s.file? path).isSome then .loadingSettings path else .settingsMissing path

/-- Loads the settings at a path, over which the environment goes. -/
def loadAt (s : Surroundings) (path : String) : Except StartupError Settings :=
  match Configuration.load [s.file? path] (some s.environment) with
  | .ok l => .ok l.settings
  | .error cause => .error (.settings path cause)

/-- Launches a catalog with the settings at a path: the events of the launch, and the catalog. -/
def launch (s : Surroundings) (path : String) (remote : Remote) (runtime : Bool) :
    List LogEvent × Except StartupError Catalog :=
  match s.loadAt path with
  | .error e => ([s.loadingEvent path], .error e)
  | .ok settings =>
    let (events, catalog) := Catalog.launch settings path remote runtime
    (s.loadingEvent path :: events, catalog)

end Surroundings
end LogCatalog
