import LogCatalog.Clockwork
import LogCatalog.Pool.Schedule

/-!
# The bench

The parts below the catalog, wired by hand: one workspace, prepared fetches under ids, and pools
one after the other, of which the last one takes fetches. A pool that was replaced accepts
nothing any more and goes on with what it has. A prepared fetch can also be run in the foreground:
whenever the clock stands, it goes on before the background does, and once it has ended nothing else
runs.
-/
namespace LogCatalog

structure Bench where
  work : Workspace
  prepared : Std.ExtTreeMap Nat Fetch := ∅
  /-- The pools in the order in which they were started. -/
  pools : List Pool := []
  /-- The pool whose loop was handed over last when it was shut down, by its place. -/
  watched : Option Nat := none
  runtime : Bool := true

namespace Bench

def new (lifetime timeout : Nat) (remote : Remote) : Bench :=
  { work := { remote, names := { lifetime }, timeout } }

def pool? (b : Bench) : Option Pool := b.pools.getLast?

def onWork (b : Bench) (f : Workspace → Workspace) : Bench := { b with work := f b.work }

/-- Replaces the pool that takes fetches. -/
def onPool (b : Bench) (f : Pool → Pool) : Bench :=
  { b with pools := b.pools.modify (b.pools.length - 1) f }

/-- Whether the loop that was handed over last has ended. -/
def watchedLoopEnded? (b : Bench) : Option Bool :=
  b.watched.map fun place => (b.pools[place]?).all fun p => !p.looping

/-- Asks for the key's marker and makes the fetch, which takes the place of the one under this id. -/
def prepare (b : Bench) (id : Nat) (request : Request) : Ruling × Bench :=
  match b.work.registry.request request.component request.key with
  | (.admitted, registry) =>
    let (f, work) := { b.work with registry }.issue request
    let work := match b.prepared[id]? with
      | some old => work.release old.key
      | none => work
    (.admitted, { b with work, prepared := b.prepared.insert id f })
  | (ruling, _) => (ruling, b)

/-- Takes the fetch under this id away. -/
def take (b : Bench) (id : Nat) : Option Fetch × Bench :=
  (b.prepared[id]?, { b with prepared := b.prepared.erase id })

def drop (b : Bench) (id : Nat) : Bool × Bench :=
  match b.take id with
  | (some f, b) => (true, b.onWork (·.release f.key))
  | (none, b) => (false, b)

def start (b : Bench) (workers : Nat) : Bool × Bench :=
  if b.runtime then
    let b := b.onPool Pool.close
    (true, { b with pools := b.pools ++ [.start workers] })
  else (false, b)

/-- Hands the fetch under this id to the pool. Without a pool the fetch is dropped. -/
def enqueue (b : Bench) (id : Nat) : Option Bool × Bench :=
  match b.take id, b.pool? with
  | (some f, b), some p =>
    let (accepted, work, p) := p.enqueue b.work f
    (some accepted, { b with work }.onPool fun _ => p)
  | (some f, b), none => (none, b.onWork (·.release f.key))
  | (none, b), _ => (none, b)

/-- Shuts the pool down. The loop is handed over the first time. -/
def close (b : Bench) : Bool × Bench :=
  match b.pools.length with
  | 0 => (false, b)
  | n + 1 => (b.watched != some n, { b.onPool Pool.close with watched := some n })

/-- The next step of the background with the place of its pool. -/
def next? (b : Bench) : Option (Nat × Move) :=
  let ranked := b.pools.zipIdx.filterMap fun (p, place) =>
    (Pool.ranked? b.work p).map fun (rank, m) => (rank, place, m)
  (Rank.first? ranked).map Prod.snd

def step (b : Bench) (place : Nat) (m : Move) : Bench :=
  match b.pools[place]?.bind fun p => Pool.move? b.work p m with
  | some (work, p) => { b with work, pools := b.pools.set place p }
  | none => b

/-- The instants at which something becomes due. -/
def wakes (b : Bench) : List Nat := b.pools.flatMap Pool.wakes

def clockwork : Clockwork Bench where
  now b := b.work.now
  next? b := b.next?.map fun (place, m) => b.step place m
  backlog b := b.pools.foldr (fun p n => p.work + n) 0
  elapse b ms := b.onWork fun w => { w with now := w.now + ms }
  wakes := wakes

/-- Takes every step that can be taken while the clock stands. -/
def settle (b : Bench) : Bench := clockwork.settle b

def advance (b : Bench) (ms : Nat) : Bench := if b.runtime then clockwork.advance b ms else b

/-- Follows a call in the foreground from one instant to the next. It ends at its deadline at the
latest. -/
def followWithin : Nat → Bench → Fetch → Call → Option Outcome × Bench
  | 0, b, _, _ => (none, b)
  | n + 1, b, f, c =>
    match if c.isDue b.work.remote b.work.now then b.work.look f c else (.inr c, b.work) with
    | (.inl outcome, work) => (outcome, { b with work })
    | (.inr c, work) =>
      let b := { b with work }.settle
      match (c.wakes ++ b.wakes).min? with
      | some time => followWithin n (clockwork.moveClock b time) f c
      | none => (none, b)

/-- Runs a fetch to its end in the foreground. There is no outcome if its call breaks off. -/
def runFetch (b : Bench) (f : Fetch) : Option Outcome × Bench :=
  match b.work.begin f with
  | (.inl outcome, work) => (some outcome, { b with work })
  | (.inr c, work) => followWithin (work.timeout + 2) { b with work } f c

/-- Runs the fetch under this id, if there is one and a runtime. -/
def run (b : Bench) (id : Nat) : Option (Option Outcome) × Bench :=
  if b.runtime then
    match b.take id with
    | (some f, b) =>
      let (outcome, b) := b.runFetch f
      (some outcome, b)
    | (none, b) => (none, b)
  else (none, b)

def collapseAll (w : Workspace) : List Pool → Workspace × List Pool
  | [] => (w, [])
  | p :: xs =>
    let (w, p) := p.collapse w
    let (w, xs) := collapseAll w xs
    (w, p :: xs)

def dropRuntime (b : Bench) : Bench :=
  let (work, pools) := collapseAll b.work b.pools
  { b with work, pools, runtime := false }

def get (b : Bench) (component host : String) : Option NameSet × Bench :=
  let (found, names) := b.work.names.get b.work.now (.ofPair component host)
  (found, b.onWork fun w => { w with names })

def put (b : Bench) (component host : String) (names : List String) : Bench :=
  b.onWork fun w =>
    { w with names := w.names.insert w.now (.ofPair component host) (Std.ExtTreeSet.ofList names) }

def dropStale (b : Bench) : Nat × Bench :=
  let (count, names) := b.work.names.dropStale b.work.now
  (count, b.onWork fun w => { w with names })

def fail (b : Bench) (component : String) : Nat × Bench :=
  let registry := b.work.registry.addFailure component
  (registry.failuresOf component, b.onWork fun w => { w with registry }.emit (registry.warnings component))

inductive Command where
  | prepare (id : Nat) (request : Request)
  | run (id : Nat)
  | drop (id : Nat)
  | start (workers : Nat)
  | enqueue (id : Nat)
  | close
  | settle
  | advance (ms : Nat)
  | openGate (gate : String)
  | install (controller : String)
  | clear
  | dropStale
  | get (component host : String)
  | put (component host : String) (names : List String)
  | fail (component : String)
  | dropRuntime

inductive Reply where
  | nothing
  | ruling (r : Ruling)
  | outcome (o : Outcome)
  | panicked
  | flag (b : Bool)
  | number (n : Nat)
  | names (found : Option NameSet)

/-- Puts an answer into a reply. -/
def Reply.of {α : Type} (f : α → Reply) (answer : α × Bench) : Reply × Bench := (f answer.1, answer.2)

def perform (b : Bench) : Command → Reply × Bench
  | .prepare id request => Reply.of .ruling (b.prepare id request)
  | .run id =>
    match b.run id with
    | (some (some outcome), b) => (.outcome outcome, b)
    | (some none, b) => (.panicked, b)
    | (none, b) => (.nothing, b)
  | .drop id => Reply.of .flag (b.drop id)
  | .start workers => Reply.of .flag (b.start workers)
  | .enqueue id =>
    match b.enqueue id with
    | (some accepted, b) => (.flag accepted, b)
    | (none, b) => (.nothing, b)
  | .close => Reply.of .flag b.close
  | .settle => (.nothing, if b.runtime then b.settle else b)
  | .advance ms => (.nothing, b.advance ms)
  | .openGate gate => (.nothing, b.onWork fun w => { w with remote := w.remote.openGate gate })
  | .install controller =>
    let (installed, remote) := b.work.remote.install controller
    (.flag installed, b.onWork fun w => { w with remote })
  | .clear => (.nothing, b.onWork fun w => { w with names := w.names.clear })
  | .dropStale => Reply.of .number b.dropStale
  | .get component host => Reply.of .names (b.get component host)
  | .put component host names => (.nothing, b.put component host names)
  | .fail component => Reply.of .number (b.fail component)
  | .dropRuntime => (.nothing, b.dropRuntime)

/-- What a command replies, the events it logged and the bench after it. -/
structure Step where
  reply : Reply
  log : List LogEvent
  bench : Bench

/-- Performs the commands in turn, each with a log of its own. -/
def performAll (b : Bench) : List Command → List Step
  | [] => []
  | c :: cs =>
    let (reply, next) := (b.onWork fun w => { w with log := [] }).perform c
    ⟨reply, LogEvent.sorted next.work.log, next⟩ :: next.performAll cs

end Bench
end LogCatalog
