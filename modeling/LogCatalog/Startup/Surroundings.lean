import LogCatalog.Settings.Environment
import LogCatalog.Settings.File

/-!
# Surroundings

What a program is started in, and the settings file that it finds there. A path that was asked for wins,
whether there is a file or not. After it comes the local file, if there is one, and last the file in the
directory for configuration files.
-/
namespace LogCatalog

structure Directory where
  path : String
  absolute : Bool

/-- The files by their path, the home directory, the directory for configuration files if one is named,
and the environment variables. -/
structure Surroundings where
  file? : String → Option File
  home : String
  configHome : Option Directory := none
  environment : Environment := {}

namespace Surroundings

def localPath : String := "config/logsearch.yaml"

/-- A named directory counts only if its path is absolute. -/
def configDirectory (s : Surroundings) : String :=
  match s.configHome with
  | some d => if d.absolute then d.path else s.home ++ "/.config"
  | none => s.home ++ "/.config"

def settingsPath (s : Surroundings) (explicit : Option String) : String :=
  match explicit with
  | some path => path
  | none =>
    if (s.file? localPath).isSome then localPath
    else s.configDirectory ++ "/ambari/logsearch.yaml"

end Surroundings
end LogCatalog
