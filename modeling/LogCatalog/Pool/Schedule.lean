import LogCatalog.Pool

/-!
# The order of background steps

At any instant, fetches whose call is due go on before anything new begins: those woken by the clock
in the order in which they began to wait, then those woken by a gate, gate by gate as the gates were
opened. After them the fetches that have just been given a permit begin in order, and last the loop
takes its steps.
-/
namespace LogCatalog

/-- The place of a step among the steps that can be taken: class first, then order within it. -/
structure Rank where
  kind : Nat
  first : Nat := 0
  second : Nat := 0
deriving DecidableEq

def Rank.before (a b : Rank) : Bool :=
  a.kind < b.kind || (a.kind == b.kind &&
    (a.first < b.first || (a.first == b.first && a.second < b.second)))

/-- The turn of the earliest wait on the clock that is over. -/
def Call.clockTurn? (c : Call) (now : Nat) : Option Nat :=
  let reply := match c.wait with
    | .timer due _ => if due ≤ now then some c.since else none
    | _ => none
  if c.deadline ≤ now then some (min c.begun (reply.getD c.begun)) else reply

/-- The rank of a due call. -/
def Call.rank (c : Call) (remote : Remote) (now : Nat) : Rank :=
  match c.clockTurn? now with
  | some turn => ⟨0, turn, 0⟩
  | none =>
    match c.wait with
    | .gate name _ _ => ⟨1, remote.opened.idxOf name, c.since⟩
    | _ => ⟨1, remote.opened.length, c.since⟩

/-- The first of the ranked choices, the earlier of two that have one rank. -/
def Rank.first? {α : Type} : List (Rank × α) → Option (Rank × α)
  | [] => none
  | a :: rest =>
    match Rank.first? rest with
    | some b => if b.1.before a.1 then some b else some a
    | none => some a

/-- How many steps a fetch that has a permit can still take without the clock. -/
def Stage.work : Stage → Nat
  | .granted => 5
  | .calling c =>
    match c.wait with
    | .gate _ _ _ => 4
    | .timer _ _ => 3
    | .silence => 2

/-- The instants on the clock at which a call becomes due. -/
def Call.wakes (c : Call) : List Nat :=
  match c.wait with
  | .timer due _ => [due, c.deadline]
  | _ => [c.deadline]

namespace Pool

/-- The steps of one fetch that has a permit. -/
def taskMove (w : Workspace) (place : Nat) (t : Task) : List (Rank × Move) :=
  match t.stage with
  | .granted => [(⟨2, place, 0⟩, .resume t.fetch.ticket)]
  | .calling c => if c.isDue w.remote w.now then [(c.rank w.remote w.now, .resume t.fetch.ticket)] else []

/-- The steps of the loop. -/
def loopMove (p : Pool) : List (Rank × Move) :=
  if p.grant?.isSome then [(⟨3, 0, 0⟩, .grant)]
  else if p.receive?.isSome then [(⟨4, 0, 0⟩, .receive)]
  else if p.leave?.isSome then [(⟨5, 0, 0⟩, .leave)]
  else []

/-- The next step with its rank, unless no step can be taken. -/
def ranked? (w : Workspace) (p : Pool) : Option (Rank × Move) :=
  Rank.first? ((p.active.zipIdx.flatMap fun (t, place) => taskMove w place t) ++ p.loopMove)

def next? (w : Workspace) (p : Pool) : Option Move := (ranked? w p).map Prod.snd

/-- A bound for the number of steps that can be taken before the clock moves. -/
def work (p : Pool) : Nat :=
  7 * p.queue.length + 6 * p.held.toList.length + p.active.foldr (fun t n => t.stage.work + n) 0 +
    (if p.looping then 1 else 0)

/-- The instants on the clock at which some fetch becomes due. -/
def wakes (p : Pool) : List Nat :=
  p.active.flatMap fun t =>
    match t.stage with
    | .granted => []
    | .calling c => Call.wakes c

end Pool

end LogCatalog
