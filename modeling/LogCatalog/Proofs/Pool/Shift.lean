import LogCatalog.Proofs.Pool.Permits

/-!
# Pools at work

A shift is a pool with the workspace of its fetches, open to everything that can happen to the two while
the loop is alive: fetches are handed in, the pool takes its steps, it is closed, and others change the
workspace as they like. A shift is observed through four lists: the fetches that were accepted, those that
got a permit and those that made their call, and the exits, each in the order in which it happened.
-/
namespace LogCatalog

structure Shift where
  work : Workspace
  pool : Pool

namespace Shift

inductive Event where
  /-- A fetch is made for the request and handed in. -/
  | submit (r : Request)
  | move (m : Move)
  | close
  /-- Others leave the workspace like this. Tickets that were given out stay so. -/
  | meanwhile (w : Workspace)

/-- The fetch that is handed in for a request. -/
def fetchFor (x : Shift) (r : Request) : Fetch := (x.work.issue r).1

/-- The shift after an event; a step that cannot be taken changes nothing. -/
def meet (x : Shift) : Event → Shift
  | .submit r =>
    let (_, work, pool) := x.pool.enqueue (x.work.issue r).2 (x.fetchFor r)
    ⟨work, pool⟩
  | .move m =>
    match Pool.move? x.work x.pool m with
    | some (work, pool) => ⟨work, pool⟩
    | none => x
  | .close => { x with pool := x.pool.close }
  | .meanwhile w => { x with work := { w with issued := max x.work.issued w.issued } }

def run (x : Shift) (events : List Event) : Shift := events.foldl meet x

/-- The fetch that is accepted in an event. -/
def accepted? (x : Shift) : Event → Option Fetch
  | .submit r =>
    if (x.pool.enqueue (x.work.issue r).2 (x.fetchFor r)).1 then some (x.fetchFor r) else none
  | _ => none

def granted? (x : Shift) : Event → Option Fetch
  | .move m => x.pool.granted? m
  | _ => none

def called? (x : Shift) : Event → Option Fetch
  | .move m => x.pool.called? x.work m
  | _ => none

def exit? (x : Shift) : Event → Option Exit
  | .move m => x.pool.exit? x.work m
  | _ => none

/-- What a run shows to an observer of single events. -/
def observe {β : Type} (see : Shift → Event → Option β) (x : Shift) : List Event → List β
  | [] => []
  | e :: events => (see x e).toList ++ (x.meet e).observe see events

def accepted (x : Shift) (events : List Event) : List Fetch := x.observe accepted? events

def granted (x : Shift) (events : List Event) : List Fetch := x.observe granted? events

def called (x : Shift) (events : List Event) : List Fetch := x.observe called? events

def exits (x : Shift) (events : List Event) : List Exit := x.observe exit? events

variable (x : Shift) (e : Event) (before after events : List Event)

@[simp] theorem run_nil : x.run [] = x := rfl

@[simp] theorem run_cons : x.run (e :: after) = (x.meet e).run after := rfl

theorem observe_append {β : Type} (see : Shift → Event → Option β) :
    x.observe see (before ++ after) = x.observe see before ++ (x.run before).observe see after := by
  induction before generalizing x with
  | nil => rfl
  | cons e before ih => rw [List.cons_append, observe, ih, observe, run_cons, List.append_assoc]

/-- A fetch that is handed in joins the end of the queue, or it is refused and the pool stays as it is. -/
theorem meet_submit (r : Request) :
    (x.accepted? (.submit r) = some (x.fetchFor r) ∧ x.pool.accepting ∧ x.pool.looping ∧
      x.meet (.submit r) =
        ⟨{ x.work with issued := x.work.issued + 1 },
          { x.pool with
            queue := x.pool.queue ++ [x.fetchFor r]
            unfinished := x.pool.unfinished + 1 }⟩) ∨
    (x.accepted? (.submit r) = none ∧
      ∃ work, x.meet (.submit r) = ⟨work, x.pool⟩ ∧ work.issued = x.work.issued + 1) := by
  by_cases ha : x.pool.accepting
  · by_cases hl : x.pool.looping
    · simp only [meet, accepted?, Pool.enqueue_of_looping _ _ ha hl]
      exact .inl ⟨rfl, ha, hl, rfl⟩
    · simp only [meet, accepted?, Pool.enqueue_of_not_looping _ _ ha hl]
      exact .inr ⟨rfl, _, rfl, rfl⟩
  · simp only [meet, accepted?, Pool.enqueue_of_not_accepting _ _ ha]
    exact .inr ⟨rfl, _, rfl, rfl⟩

/-- A step of the pool is taken, or it cannot be and nothing is observed. -/
theorem meet_move (m : Move) :
    (x.meet (.move m) = x ∧ x.granted? (.move m) = none ∧ x.called? (.move m) = none ∧
      x.exit? (.move m) = none) ∨
    ∃ work pool, x.meet (.move m) = ⟨work, pool⟩ ∧
      Pool.Step x.work x.pool m (x.exit? (.move m)) work pool := by
  cases hm : Pool.move? x.work x.pool m with
  | none =>
    exact .inl ⟨by simp [meet, hm], Pool.granted?_eq_none hm, Pool.called?_eq_none hm,
      Pool.exit?_eq_none hm⟩
  | some next =>
    obtain ⟨work, pool⟩ := next
    exact .inr ⟨work, pool, by simp [meet, hm], Pool.step_of_move? hm⟩

variable {x}

/-- A closed pool stays closed. -/
theorem not_accepting_meet (h : ¬x.pool.accepting) : ¬(x.meet e).pool.accepting := by
  cases e with
  | submit r =>
    rcases x.meet_submit r with ⟨-, ha, -⟩ | ⟨-, work, hmeet, -⟩
    · exact absurd ha h
    · rwa [hmeet]
  | move m =>
    rcases x.meet_move m with ⟨hmeet, -⟩ | ⟨work, pool, hmeet, hs⟩
    · rwa [hmeet]
    · rw [hmeet]
      exact hs.accepting.1 ▸ h
  | close => exact Bool.false_ne_true
  | meanwhile w => exact h

theorem accepted_of_not_accepting (h : ¬x.pool.accepting) : x.accepted events = [] := by
  induction events generalizing x with
  | nil => rfl
  | cons e events ih =>
    have he : x.accepted? e = none := by
      cases e with
      | submit r =>
        rcases x.meet_submit r with ⟨-, ha, -⟩ | ⟨hr, -⟩
        · exact absurd ha h
        · exact hr
      | move | close | meanwhile => rfl
    have hrest : (x.meet e).observe accepted? events = [] := ih (not_accepting_meet e h)
    rw [accepted, observe, he, hrest]
    rfl

end Shift
end LogCatalog
