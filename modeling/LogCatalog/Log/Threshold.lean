import LogCatalog.Text.Digit

/-!
# Log thresholds

A threshold is named in any ASCII case, or numbered from the most severe upwards.
-/
namespace LogCatalog

inductive Threshold where
  | error
  | warn
  | info
  | debug
  | trace
deriving DecidableEq

namespace Threshold

def all : List Threshold := [.error, .warn, .info, .debug, .trace]

def name : Threshold → String
  | .error => "error"
  | .warn => "warn"
  | .info => "info"
  | .debug => "debug"
  | .trace => "trace"

/-- A natural number, after one plus sign if there is one. -/
def number? (s : String) : Option Nat :=
  match s.toList with
  | '+' :: digits => Text.natural? 10 digits
  | digits => Text.natural? 10 digits

def parse? (s : String) : Option Threshold :=
  match number? s with
  | some 0 => none
  | some (n + 1) => all[n]?
  | none => all.find? fun t => t.name == s.toLower

/-- With `verbose` the threshold is `debug`, whatever the text says. -/
def choose? (s : String) (verbose : Bool) : Option Threshold :=
  if verbose then some .debug else parse? s

def refusal : String := "Invalid log level"

end Threshold
end LogCatalog
