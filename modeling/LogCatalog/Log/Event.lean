import LogCatalog.FetchError
import LogCatalog.Json.Writer
import LogCatalog.Key

/-!
# Log events

Each event that callers can see, with one rendering: its level, its message and its fields.
-/
namespace LogCatalog

inductive LogEvent where
  | loadingSettings (path : String)
  | settingsMissing (path : String)
  | launching (path : String) (expireHours : Nat)
  | started (expireHours workers : Nat)
  | stopped (unfinished : Nat)
  | barred (component : String) (failures : Nat)
  | fetchFailed (host : String) (error : FetchError)
  | fetchTimedOut (host : String) (timeoutMs : Nat)
  | queueClosed
  | requestDropped (key : Key)
  | purged (count : Nat)

namespace LogEvent

inductive Level where
  | info
  | warn
  | debug

def Level.name : Level → String
  | .info => "INFO"
  | .warn => "WARN"
  | .debug => "DEBUG"

def level : LogEvent → Level
  | loadingSettings _ | launching _ _ | started _ _ | stopped _ => .info
  | settingsMissing _ | barred _ _ | fetchFailed _ _ | fetchTimedOut _ _ | queueClosed
  | requestDropped _ => .warn
  | purged _ => .debug

def message : LogEvent → String
  | loadingSettings _ => "loading logsearch configuration"
  | settingsMissing _ => "logsearch config file not found, using defaults"
  | launching _ _ => "bootstrapping logsearch data retrieval service"
  | started _ _ => "logsearch data retrieval service started"
  | stopped _ => "logsearch data retrieval service stopped"
  | barred _ _ =>
    "too many failed logsearch metadata requests; ignoring component for LogSearch integration"
  | fetchFailed _ _ => "logsearch file name request failed"
  | fetchTimedOut _ _ => "logsearch file name request timed out"
  | queueClosed => "logsearch fetch queue closed unexpectedly; dropping fetch"
  | requestDropped _ => "logsearch fetch executor closed; request dropped"
  | purged _ => "purged expired logsearch cache entries"

def number (n : Nat) : Json := .natural (UInt64.ofNat n)

/-- The fields, by increasing name. -/
def fields : LogEvent → Json.Members
  | loadingSettings path => [("path", .text path)]
  | settingsMissing path => [("path", .text path)]
  | launching path hours => [("expire_hours", number hours), ("path", .text path)]
  | started hours workers => [("expire_hours", number hours), ("workers", number workers)]
  | stopped unfinished => [("pending", number unfinished)]
  | barred component failures => [("component", .text component), ("failures", number failures)]
  | fetchFailed host error => [("err", .text error.message), ("host", .text host)]
  | fetchTimedOut host ms => [("host", .text host), ("timeout_ms", number ms)]
  | queueClosed => []
  | requestDropped key => [("key", .text key.text)]
  | purged count => [("purged", number count)]

def toJson (e : LogEvent) : Json :=
  .array [.text e.level.name, .text e.message, .object e.fields]

def line (e : LogEvent) : String := e.toJson.compact

/-- The events by increasing line. -/
def sorted (events : List LogEvent) : List LogEvent :=
  events.mergeSort fun a b => !decide (b.line < a.line)

end LogEvent
end LogCatalog
