import LogCatalog.FetchError
import LogCatalog.Settings.Error

/-!
# Errors of the library

Lookups never fail. What can fail is the life cycle of the catalog, the settings and, unseen by the
callers, a remote listing.
-/
namespace LogCatalog

inductive LifecycleError where
  | alreadyStarted
  | stopped
  | noRuntime
  | settings (detail : String)
deriving DecidableEq

def LifecycleError.message : LifecycleError → String
  | .alreadyStarted => "retrieval service already started"
  | .stopped => "retrieval service has been stopped"
  | .noRuntime => "no tokio runtime available to run fetch tasks"
  | .settings detail => "config error: " ++ detail

def LifecycleError.ofSettings (e : SettingsError) : LifecycleError := .settings e.message

inductive CatalogError where
  | plain (detail : String)
  | settings (e : SettingsError)
  | lifecycle (e : LifecycleError)
  | fetch (e : FetchError)

def CatalogError.message : CatalogError → String
  | .plain detail => detail
  | .settings e => e.message
  | .lifecycle e => e.message
  | .fetch e => e.message

/-- The message with which the error leaves the library. -/
def CatalogError.report : CatalogError → String
  | .fetch e => "logsearch helper error: " ++ e.message
  | e => e.message

end LogCatalog
