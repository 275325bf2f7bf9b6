import LogCatalog.Catalog
import LogCatalog.Proofs.Pool.Step

/-!
# The history of a run

A run is observed through two lists: the fetches that its actions queued, and the exits that it made,
both in the order in which they happened. What every action keeps holds after every run.
-/
namespace LogCatalog.Catalog

/-- How a fetch leaves the pool in an action, if one does. -/
def exit? (s : Catalog) : Action → Option Exit
  | .background (.move m) => Pool.exit? s.work s.pool m
  | _ => none

/-- The exits of a run. -/
def exits (s : Catalog) : List Action → List Exit
  | [] => []
  | a :: actions => (s.exit? a).toList ++ (s.act a).exits actions

/-- The fetch by which an action makes the queue longer. -/
def queued? (s : Catalog) (a : Action) : Option Fetch :=
  if s.pool.queue.length < (s.act a).pool.queue.length then (s.act a).pool.queue.getLast? else none

/-- The fetches that a run queues. -/
def arrivals (s : Catalog) : List Action → List Fetch
  | [] => []
  | a :: actions => (s.queued? a).toList ++ (s.act a).arrivals actions

variable (s : Catalog) (a : Action) (after : List Action)

@[simp] theorem run_nil : s.run [] = s := rfl

@[simp] theorem run_cons : s.run (a :: after) = (s.act a).run after := rfl

/-- Every exit of a run is made by one of its actions. -/
theorem exists_of_mem_exits {s : Catalog} {actions : List Action} {x : Exit} (h : x ∈ s.exits actions) :
    ∃ before a after, actions = before ++ a :: after ∧ (s.run before).exit? a = some x := by
  induction actions generalizing s with
  | nil => exact nomatch h
  | cons a actions ih =>
    rw [exits, List.mem_append, Option.mem_toList] at h
    rcases h with h | h
    · exact ⟨[], a, actions, rfl, h⟩
    · obtain ⟨before, b, after, rfl, hx⟩ := ih h
      exact ⟨a :: before, b, after, rfl, hx⟩

/-- What holds at first and is kept by every action holds after every run. -/
theorem run_induction {P : Catalog → Prop} {s : Catalog} (h : P s)
    (step : ∀ s a, P s → P (s.act a)) (actions : List Action) : P (s.run actions) := by
  induction actions generalizing s with
  | nil => exact h
  | cons a actions ih => exact ih (step s a h)

/-- A remote side that can be reached and lists the same rows at once, whatever host is asked for. -/
def answering (rows : List (String × List String)) : Remote where
  controller := ⟨some "controller"⟩
  clusters _ := some
    { plan := fun _ _ => { reply := .answer (.files (.ofRows rows)) }
      tailAddress := fun _ _ _ => none }

/-- What the background does for the first fetch when the remote side answers at once. -/
def firstFetch : List Action :=
  [.receive, .grant, .resume 0, .resume 0].map fun m => .background (.move m)

end LogCatalog.Catalog
