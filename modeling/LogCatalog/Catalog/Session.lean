import LogCatalog.Catalog.Schedule

/-!
# Sessions with a catalog

A session drives one catalog by commands. Between commands the clock stands still and nothing runs in
the background. The runtime that the background needs can go away for good; then no time passes any
more either.
-/
namespace LogCatalog

structure Session where
  catalog : Catalog
  runtime : Bool := true

namespace Session

inductive Command where
  /-- Starts the catalog on the runtime of the caller, if the caller has one. -/
  | start (ambient : Bool)
  /-- Starts the catalog on the runtime of the session, if it is still there. -/
  | startOn
  | stop
  /-- Looks file names up so many times, settling after each lookup if asked to. -/
  | names (component host cluster : String) (times : Nat) (settling : Bool)
  | tail (base component host cluster : String) (times : Nat)
  /-- So many callers look file names up at once. -/
  | crowd (component host cluster : String) (callers : Nat)
  | isMarked (component host : String)
  | failuresOf (component : String)
  | settle
  | advance (ms : Nat)
  | openGate (gate : String)
  | install (controller : String)
  | dropRuntime

inductive Reply where
  | nothing
  | started
  | refused (e : LifecycleError)
  | names (found : Option NameSet)
  | uri (found : Option String)
  | flag (b : Bool)
  | number (n : Nat)

def onCatalog (s : Session) (f : Catalog → Catalog) : Session := { s with catalog := f s.catalog }

def settle (s : Session) : Session := if s.runtime then s.onCatalog Catalog.settle else s

def advance (s : Session) (ms : Nat) : Session :=
  if s.runtime then s.onCatalog (·.advance ms) else s

def start (s : Session) (runtime : Bool) : Reply × Session :=
  match s.catalog.start runtime with
  | .ok catalog => (.started, { s with catalog })
  | .error e => (.refused e, s)

/-- The last answer of so many lookups, and how many of them found something. -/
def lookUp (s : Session) (component host cluster : String) (settling : Bool) :
    Nat → Option NameSet × Nat × Session
  | 0 => (none, 0, s)
  | n + 1 =>
    let (_, count, s) := s.lookUp component host cluster settling n
    let (found, catalog) := s.catalog.lookUpNames component host cluster
    let s := { s with catalog }
    (found, count + found.isSome.toNat, if settling then s.settle else s)

/-- The last answer of so many lookups. -/
def tail (s : Session) (base component host cluster : String) : Nat → Option String × Session
  | 0 => (none, s)
  | n + 1 =>
    let (_, s) := s.tail base component host cluster n
    let (found, catalog) := s.catalog.lookUpTail base component host cluster
    (found, { s with catalog })

def dropRuntime (s : Session) : Session :=
  let (work, pool) := Pool.collapse s.catalog.work s.catalog.pool
  { s with runtime := false, catalog := { s.catalog with work, pool, sweepAt := none } }

def run (s : Session) : Command → Reply × Session
  | .start ambient => s.start (ambient && s.runtime)
  | .startOn => if s.runtime then s.start true else (.nothing, s)
  | .stop => (.nothing, s.onCatalog Catalog.stop)
  | .names component host cluster times settling =>
    let (found, _, s) := s.lookUp component host cluster settling times
    (.names found, s)
  | .tail base component host cluster times =>
    let (found, s) := s.tail base component host cluster times
    (.uri found, s)
  | .crowd component host cluster callers =>
    let (_, count, s) := s.lookUp component host cluster false callers
    (.number count, s)
  | .isMarked component host => (.flag (s.catalog.isMarked component host), s)
  | .failuresOf component => (.number (s.catalog.failuresOf component), s)
  | .settle => (.nothing, s.settle)
  | .advance ms => (.nothing, s.advance ms)
  | .openGate gate => (.nothing, s.onCatalog (·.act (.openGate gate)))
  | .install controller =>
    let (installed, remote) := s.catalog.work.remote.install controller
    (.flag installed, s.onCatalog fun catalog => { catalog with work := { catalog.work with remote } })
  | .dropRuntime => (.nothing, s.dropRuntime)

/-- What a command replies, the events it logged and the session after it. -/
structure Step where
  reply : Reply
  log : List LogEvent
  session : Session

/-- Runs the commands in turn, each with a log of its own. -/
def runAll (s : Session) : List Command → List Step
  | [] => []
  | c :: cs =>
    let fresh := s.onCatalog fun catalog => { catalog with work := { catalog.work with log := [] } }
    let (reply, next) := fresh.run c
    ⟨reply, LogEvent.sorted next.catalog.work.log, next⟩ :: next.runAll cs

end Session
end LogCatalog
