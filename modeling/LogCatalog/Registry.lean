import LogCatalog.Log.Event
import Std.Data.ExtTreeMap
import Std.Data.ExtTreeSet

/-!
# The registry of requests

The registry knows which keys are in flight and how often each component has failed. A component that
has failed ten times is barred: no request for it is admitted any more. Who is admitted holds the
key's marker and gives it back once.
-/
namespace LogCatalog

structure Registry where
  marks : Std.ExtTreeSet Key := ∅
  failures : Std.ExtTreeMap String Nat := ∅

inductive Ruling where
  | admitted
  | underWay
  | barred
deriving DecidableEq

namespace Registry

/-- Failures after which a component is barred. -/
def threshold : Nat := 10

/-- The failure count stays at this number once it is reached. -/
def maxFailures : Nat := UInt32.size - 1

def failuresOf (r : Registry) (component : String) : Nat := r.failures[component]?.getD 0

def isBarred (r : Registry) (component : String) : Bool := threshold ≤ r.failuresOf component

def isMarked (r : Registry) (k : Key) : Bool := r.marks.contains k

def markedKeys (r : Registry) : List Key := r.marks.toList

/-- Asks for the key's marker. A barred component is turned away before the key is looked at. -/
def request (r : Registry) (component : String) (k : Key) : Ruling × Registry :=
  if r.isBarred component then (.barred, r)
  else if r.isMarked k then (.underWay, r)
  else (.admitted, { r with marks := r.marks.insert k })

def release (r : Registry) (k : Key) : Registry := { r with marks := r.marks.erase k }

def addFailure (r : Registry) (component : String) : Registry :=
  { r with failures := r.failures.insert component (min (r.failuresOf component + 1) maxFailures) }

/-- The warning that is due right after a failure of the component was recorded. -/
def warnings (r : Registry) (component : String) : List LogEvent :=
  let count := r.failuresOf component
  if count = threshold then [.barred component count] else []

end Registry
end LogCatalog
