import LogCatalog.Error
import LogCatalog.Pool
import LogCatalog.Settings.Basic

/-!
# The catalog

Cached, non-blocking access to the log files of components on hosts. A lookup of file names that finds
nothing fresh queues a fetch and answers nothing; the caller asks again later. The address under which
a log is tailed is built on the spot and cached as well. The catalog is started once and stopped once;
stopping empties both caches for good, while fetches that are outstanding run to their end.
-/
namespace LogCatalog

inductive Phase where
  | idle
  | running
  | stopped
deriving DecidableEq

def Phase.name : Phase → String
  | .idle => "Idle"
  | .running => "Running"
  | .stopped => "Stopped"

structure Catalog where
  policy : Policy
  phase : Phase := .idle
  work : Workspace
  tails : Cache String
  pool : Pool := .idle
  /-- When the next sweep is due, while there are sweeps. -/
  sweepAt : Option Nat := none

namespace Catalog

def new (policy : Policy) (remote : Remote) : Catalog :=
  { policy
    work := { remote, names := { lifetime := policy.lifetime }, timeout := policy.timeout }
    tails := { lifetime := policy.lifetime } }

def now (s : Catalog) : Nat := s.work.now

def emit (s : Catalog) (events : List LogEvent) : Catalog := { s with work := s.work.emit events }

def workers (s : Catalog) : Nat := max s.policy.workers 1

/-- Opens the pool and the sweeps. Without a runtime nothing can be started, in any phase. -/
def start (s : Catalog) (runtime : Bool) : Except LifecycleError Catalog :=
  if ¬runtime then .error .noRuntime
  else match s.phase with
  | .running => .error .alreadyStarted
  | .stopped => .error .stopped
  | .idle =>
    .ok ({ s with
      phase := .running
      pool := .start s.workers
      sweepAt := if s.policy.sweepEvery = 0 then none else some s.now }.emit
        [.started s.policy.expireHours s.workers])

/-- Empties both caches and accepts no fetches any more. -/
def stop (s : Catalog) : Catalog :=
  if s.phase = .running then
    { s with
      phase := .stopped
      work := { s.work with names := s.work.names.clear }
      tails := s.tails.clear
      pool := s.pool.close
      sweepAt := none }.emit [.stopped s.pool.unfinished]
  else s

/-- Queues a fetch for a key whose marker was just taken. -/
def enqueue (s : Catalog) (request : Request) : Catalog :=
  let (f, work) := s.work.issue request
  match s.pool.enqueue work f with
  | (true, work, pool) => { s with work := work.count .queued, pool }
  | (false, work, pool) => { s with work := work.emit [.requestDropped f.key], pool }

/-- A lookup that found nothing fresh: it is turned away, joins a fetch or queues one. -/
def askFor (s : Catalog) (request : Request) : Catalog :=
  let work := s.work.count .miss
  match work.registry.request request.component request.key with
  | (.barred, _) => { s with work := work.count .turnedAway }
  | (.underWay, _) => { s with work := work.count .joined }
  | (.admitted, registry) => { s with work := { work with registry } }.enqueue request

/-- The names of the log files of a component on a host, if they are cached. -/
def lookUpNames (s : Catalog) (component host cluster : String) : Option NameSet × Catalog :=
  if s.phase = .running then
    let request : Request := ⟨component, host, cluster⟩
    let (found, names) := s.work.names.get s.now request.key
    let s := { s with work := { s.work with names } }
    match found with
    | some names => (some names, { s with work := s.work.count .hit })
    | none => (none, s.askFor request)
  else (none, s)

/-- Builds an address that is not cached, and caches it. -/
def buildTail (s : Catalog) (base component host cluster : String) : Option String × Catalog :=
  match s.work.remote.contact cluster with
  | (.reached c, remote) =>
    let (uri, remote) := remote.askTail c base component host
    let s := { s with work := { s.work with remote } }
    match uri with
    | some uri => (some uri, { s with tails := s.tails.insert s.now (.ofPair component host) uri })
    | none => (none, s)
  | (_, remote) => (none, { s with work := { s.work with remote } })

/-- The address under which the log of a component on a host is tailed. -/
def lookUpTail (s : Catalog) (base component host cluster : String) : Option String × Catalog :=
  if s.phase = .running then
    let (found, tails) := s.tails.get s.now (.ofPair component host)
    let s := { s with tails }
    match found with
    | some uri => (some uri, { s with work := s.work.count .tailHit })
    | none => { s with work := s.work.count .tailMiss }.buildTail base component host cluster
  else (none, s)

def isMarked (s : Catalog) (component host : String) : Bool :=
  s.work.registry.isMarked (.ofPair component host)

def markedKeys (s : Catalog) : List Key := s.work.registry.markedKeys

def failuresOf (s : Catalog) (component : String) : Nat := s.work.registry.failuresOf component

/-- Fetches that are queued or running, while the catalog runs. -/
def unfinishedFetches (s : Catalog) : Nat :=
  if s.phase = .running then s.pool.unfinished else 0

/-- The first multiple of the interval after `due` that is still to come at `now`. -/
def nextSweep (interval due now : Nat) : Nat := due + interval * ((now - due) / interval + 1)

/-- Drops what has expired from both caches, if a sweep is due. -/
def sweep? (s : Catalog) : Option Catalog :=
  match s.sweepAt with
  | none => none
  | some due =>
    if due ≤ s.now then
      let (fromNames, names) := s.work.names.dropStale s.now
      let (fromTails, tails) := s.tails.dropStale s.now
      let purged := fromNames + fromTails
      some ({ s with
        work := { s.work with names }
        tails
        sweepAt := some (nextSweep s.policy.sweepPeriod due s.now) }.emit
          (if purged = 0 then [] else [.purged purged]))
    else none

/-- A step of the background: one of the pool, or a sweep. -/
inductive Background where
  | move (m : Move)
  | sweep

/-- The effect of a background step, if it can be taken. -/
def step? (s : Catalog) : Background → Option Catalog
  | .sweep => s.sweep?
  | .move m => (Pool.move? s.work s.pool m).map fun (work, pool) => { s with work, pool }

/-- Everything that can happen to a catalog, each as one indivisible action. -/
inductive Action where
  | start (runtime : Bool)
  | stop
  | names (component host cluster : String)
  | tail (base component host cluster : String)
  | openGate (gate : String)
  | install (controller : String)
  /-- From now on the remote side has these clusters. -/
  | regroup (clusters : String → Option Cluster)
  | elapse (ms : Nat)
  | background (b : Background)

/-- The state after an action; an action that cannot be taken changes nothing. -/
def act (s : Catalog) : Action → Catalog
  | .start runtime =>
    match s.start runtime with
    | .ok s => s
    | .error _ => s
  | .stop => s.stop
  | .names component host cluster => (s.lookUpNames component host cluster).2
  | .tail base component host cluster => (s.lookUpTail base component host cluster).2
  | .openGate gate => { s with work := { s.work with remote := s.work.remote.openGate gate } }
  | .install name => { s with work := { s.work with remote := (s.work.remote.install name).2 } }
  | .regroup clusters => { s with work := { s.work with remote := { s.work.remote with clusters } } }
  | .elapse ms => { s with work := { s.work with now := s.work.now + ms } }
  | .background b => (s.step? b).getD s

/-- The state after the actions, one after the other. -/
def run (s : Catalog) (actions : List Action) : Catalog := actions.foldl act s

end Catalog
end LogCatalog
