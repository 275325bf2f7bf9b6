import LogCatalog.Counters
import LogCatalog.Fetch
import LogCatalog.Registry

/-!
# The workspace of fetches

What fetches read and write while they run, and the two moments at which they act: a fetch begins by
making its call, and it ends by recording what came of the call. Whatever the end, the fetch gives
the marker of its key back.
-/
namespace LogCatalog

/-- Times are in milliseconds. `turn` numbers the waits in the order in which they began, `issued` the
fetches that were made. -/
structure Workspace where
  now : Nat := 0
  turn : Nat := 0
  issued : Nat := 0
  remote : Remote
  names : Cache NameSet
  registry : Registry := {}
  counters : Counters := {}
  timeout : Nat
  log : List LogEvent := []

/-- What a call waits for. -/
inductive Wait where
  /-- For a gate, and after that for a while. -/
  | gate (name : String) (delay : Nat) (reply : Reply)
  | timer (due : Nat) (reply : Reply)
  /-- For nothing but the deadline. -/
  | silence

/-- A call under way, with the turns at which it was made and at which its wait began. -/
structure Call where
  deadline : Nat
  begun : Nat
  wait : Wait
  since : Nat

/-- How a call ended. -/
inductive Ending where
  | answered (a : Answer)
  | timedOut
  | panicked

/-- What looking at a call shows: it goes on, or it has ended. -/
inductive Progress where
  | waiting (c : Call)
  | ended (e : Ending)

namespace Call

/-- The wait after it has passed an open gate. -/
def passGate (c : Call) (remote : Remote) (now turn : Nat) : Call :=
  match c.wait with
  | .gate name delay reply =>
    if remote.isOpen name then { c with wait := .timer (now + delay) reply, since := turn } else c
  | _ => c

/-- A call that neither replied nor has to wait longer than until `now` has timed out. -/
def orTimedOut (c : Call) (now : Nat) : Progress :=
  if c.deadline ≤ now then .ended .timedOut else .waiting c

/-- Looks at the call. A reply that is there at the deadline still counts. -/
def poll (c : Call) (remote : Remote) (now turn : Nat) : Progress :=
  let c := c.passGate remote now turn
  match c.wait with
  | .timer due reply =>
    if due ≤ now then
      match reply with
      | .answer a => .ended (.answered a)
      | .panic => .ended .panicked
      | .silence => { c with wait := .silence }.orTimedOut now
    else c.orTimedOut now
  | _ => c.orTimedOut now

/-- Whether looking at the call would show anything new. -/
def isDue (c : Call) (remote : Remote) (now : Nat) : Bool :=
  c.deadline ≤ now ||
    match c.wait with
    | .gate name _ _ => remote.isOpen name
    | .timer due _ => due ≤ now
    | .silence => false

end Call

namespace Workspace

def emit (w : Workspace) (events : List LogEvent) : Workspace := { w with log := w.log ++ events }

def count (w : Workspace) (t : Tally) : Workspace := { w with counters := w.counters.record t }

def release (w : Workspace) (k : Key) : Workspace := { w with registry := w.registry.release k }

/-- Makes a fetch in the present epoch of the cache. -/
def issue (w : Workspace) (request : Request) : Fetch × Workspace :=
  (⟨w.issued, request, w.names.epoch⟩, { w with issued := w.issued + 1 })

/-- Records how a fetch ended. -/
def close (w : Workspace) (f : Fetch) (o : Outcome) : Workspace :=
  let w :=
    if o.isFailure then
      let registry := w.registry.addFailure f.request.component
      ({ w with registry }.emit (registry.warnings f.request.component)).count .failed
    else w
  (w.count .completed).release f.key

/-- What came of the call, before it is recorded. Nothing comes of a call that broke off. -/
def outcome? (w : Workspace) (f : Fetch) : Ending → Option Outcome × Workspace
  | .answered (.files listing) =>
    if listing.rows.isEmpty then (some .empty, w)
    else
      let (o, names) := w.names.fill f.epoch w.now f.request.host listing.rows 0
      (some o, { w with names })
  | .answered .nothing => (some .empty, w)
  | .answered (.failed error) => (some .failed, w.emit [.fetchFailed f.request.host error])
  | .timedOut => (some .timedOut, w.emit [.fetchTimedOut f.request.host w.timeout])
  | .panicked => (none, w)

/-- Ends a fetch. A call that broke off counts neither as completed nor as failed. -/
def finish (w : Workspace) (f : Fetch) (e : Ending) : Option Outcome × Workspace :=
  match w.outcome? f e with
  | (some o, w) => (some o, w.close f o)
  | (none, w) => (none, w.release f.key)

/-- The call that follows the plan from now on. -/
def callOf (w : Workspace) (plan : Plan) : Call :=
  { deadline := w.now + w.timeout
    begun := w.turn
    wait := match plan.gate with
      | some gate => .gate gate plan.delay plan.reply
      | none => .timer (w.now + plan.delay) plan.reply
    since := w.turn }

/-- A fetch begins: it ends at once if its cluster cannot be reached. -/
def begin (w : Workspace) (f : Fetch) : (Outcome ⊕ Call) × Workspace :=
  match w.remote.contact f.request.cluster with
  | (.noController, remote) => (.inl .noController, { w with remote }.close f .noController)
  | (.noCluster, remote) => (.inl .noCluster, { w with remote }.close f .noCluster)
  | (.reached c, remote) =>
    let (plan, remote) := remote.askListing f.request.cluster c f.request.host
    (.inr (w.callOf plan), { w with remote, turn := w.turn + 1 })

/-- Looks at the call of a fetch: the call goes on, or the fetch has ended. -/
def look (w : Workspace) (f : Fetch) (c : Call) : (Option Outcome ⊕ Call) × Workspace :=
  match c.poll w.remote w.now w.turn with
  | .waiting c => (.inr c, { w with turn := w.turn + 1 })
  | .ended e =>
    let (o, w) := w.finish f e
    (.inl o, w)

end Workspace
end LogCatalog
