import LogCatalog.Registry

/-!
# A desk that keeps markers

Callers who were admitted leave their markers at the desk under an id. A marker that takes the place of
another one releases it, after the new one was given out.
-/
namespace LogCatalog

structure Desk where
  registry : Registry := {}
  markers : Std.ExtTreeMap Nat Key := ∅

namespace Desk

inductive Command where
  | ask (id : Nat) (component : String) (key : Key)
  | release (id : Nat)
  /-- So many callers ask at once; those who were admitted give their markers back afterwards. -/
  | crowd (component : String) (key : Key) (callers : Nat)
  | fail (component : String) (times : Nat)
  | failures (component : String)
  | isMarked (key : Key)
  | threshold

inductive Reply where
  | ruling (r : Ruling) (key : Key)
  | flag (b : Bool)
  | crowd (admitted underWay barred : Nat)
  | counts (ns : List Nat)
  | failures (count : Nat) (barred : Bool)
  | number (n : Nat)

def ask (d : Desk) (id : Nat) (component : String) (key : Key) : Ruling × Desk :=
  match d.registry.request component key with
  | (.admitted, registry) =>
    let registry := match d.markers[id]? with
      | some old => registry.release old
      | none => registry
    (.admitted, { registry, markers := d.markers.insert id key })
  | (ruling, _) => (ruling, d)

def release (d : Desk) (id : Nat) : Bool × Desk :=
  match d.markers[id]? with
  | some key => (true, { registry := d.registry.release key, markers := d.markers.erase id })
  | none => (false, d)

/-- The answers to so many requests in turn. -/
def requests (r : Registry) (component : String) (key : Key) : Nat → List Ruling × Registry
  | 0 => ([], r)
  | n + 1 =>
    let (ruling, r) := r.request component key
    let (rulings, r) := requests r component key n
    (ruling :: rulings, r)

def crowd (d : Desk) (component : String) (key : Key) (callers : Nat) : List Ruling × Desk :=
  let (rulings, registry) := requests d.registry component key callers
  (rulings, { d with registry := if .admitted ∈ rulings then registry.release key else registry })

/-- Records so many failures: the counts, the warnings and the registry after them. -/
def failTimes (r : Registry) (component : String) : Nat → List Nat × List LogEvent × Registry
  | 0 => ([], [], r)
  | n + 1 =>
    let r := r.addFailure component
    let (counts, events, last) := failTimes r component n
    (r.failuresOf component :: counts, r.warnings component ++ events, last)

def perform (d : Desk) : Command → Reply × List LogEvent × Desk
  | .ask id component key =>
    let (r, d) := d.ask id component key
    (.ruling r key, [], d)
  | .release id =>
    let (found, d) := d.release id
    (.flag found, [], d)
  | .crowd component key callers =>
    let (rulings, d) := d.crowd component key callers
    (.crowd (rulings.count .admitted) (rulings.count .underWay) (rulings.count .barred),
      [], d)
  | .fail component times =>
    let (counts, events, registry) := failTimes d.registry component times
    (.counts counts, events, { d with registry })
  | .failures component =>
    (.failures (d.registry.failuresOf component) (d.registry.isBarred component), [], d)
  | .isMarked key => (.flag (d.registry.isMarked key), [], d)
  | .threshold => (.number Registry.threshold, [], d)

/-- What a command replies, the events it logged and the desk after it. -/
structure Step where
  reply : Reply
  log : List LogEvent
  desk : Desk

def performAll (d : Desk) : List Command → List Step
  | [] => []
  | c :: cs =>
    let (reply, log, next) := d.perform c
    ⟨reply, LogEvent.sorted log, next⟩ :: next.performAll cs

end Desk
end LogCatalog
