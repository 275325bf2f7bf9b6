import LogCatalog.Workspace
import LogCatalog.Proofs.Cache.Fill
import LogCatalog.Proofs.Registry.Rulings

/-!
# How a fetch ends

The end of a fetch is recorded in three places: the cache takes the rows that the call brought, the
registry takes a failure and gives the marker of the key back, and the counters count. Each is a
function of the fetch, of the rows and of the outcome.
-/
namespace LogCatalog

/-- The rows of the listing that an answer holds. -/
def Answer.rows : Answer → List (String × List String)
  | .files listing => listing.rows
  | _ => []

theorem Answer.nodup_rows (a : Answer) : (a.rows.map Prod.fst).Nodup := by
  cases a with
  | files listing => exact listing.distinct
  | nothing => exact List.nodup_nil
  | failed error => exact List.nodup_nil

def Ending.answer? : Ending → Option Answer
  | .answered a => some a
  | _ => none

/-- How a fetch left: when, with which answer of its call and with which outcome. There is no outcome
when the call broke off. -/
structure Exit where
  time : Nat
  fetch : Fetch
  answer : Option Answer
  outcome : Option Outcome

namespace Exit

def rows (x : Exit) : List (String × List String) := (x.answer.map Answer.rows).getD []

theorem nodup_rows (x : Exit) : (x.rows.map Prod.fst).Nodup := by
  unfold rows
  cases x.answer with
  | none => exact List.nodup_nil
  | some a => exact a.nodup_rows

def isFailure (x : Exit) : Bool := x.outcome.any Outcome.isFailure

/-- The registry after the exit. -/
def settle (x : Exit) (r : Registry) : Registry :=
  (if x.isFailure then r.addFailure x.fetch.request.component else r).release x.fetch.key

/-- The counters after the exit. -/
def tally (x : Exit) (c : Counters) : Counters :=
  let c := if x.isFailure then c.record .failed else c
  if x.outcome.isSome then c.record .completed else c

/-- The cache after the exit, and what came of writing the rows. -/
def store (x : Exit) (c : Cache NameSet) : Outcome × Cache NameSet :=
  c.fill x.fetch.epoch x.time x.fetch.request.host x.rows 0

theorem isFailure_iff {x : Exit} :
    x.isFailure ↔ x.outcome = some .empty ∨ x.outcome = some .failed ∨ x.outcome = some .timedOut := by
  unfold isFailure
  cases x.outcome with
  | none => simp
  | some o => cases o <;> simp [Outcome.isFailure]

theorem completed_tally (x : Exit) (c : Counters) :
    (x.tally c).completed = if x.outcome.isSome then c.completed + 1 else c.completed := by
  unfold tally
  cases x.isFailure <;> cases x.outcome.isSome <;> rfl

theorem queued_tally (x : Exit) (c : Counters) : (x.tally c).queued = c.queued := by
  unfold tally
  cases x.isFailure <;> cases x.outcome.isSome <;> rfl

/-- In any epoch but its own an exit writes nothing. -/
theorem store_of_epoch_ne {x : Exit} {c : Cache NameSet} (h : c.epoch ≠ x.fetch.epoch) :
    (x.store c).2 = c ∧ (x.rows ≠ [] → (x.store c).1 = .discarded) := by
  by_cases hr : x.rows = []
  · refine ⟨?_, fun hne => absurd hr hne⟩
    rw [store, hr]
    rfl
  · rw [store, Cache.fill_of_epoch_ne h hr]
    exact ⟨rfl, fun _ => rfl⟩

/-- An exit gives exactly the marker of its own fetch back. -/
theorem isMarked_settle (x : Exit) (r : Registry) (k : Key) :
    (x.settle r).isMarked k ↔ x.fetch.key ≠ k ∧ r.isMarked k := by
  unfold settle
  rw [Registry.isMarked_release]
  cases x.isFailure <;> rfl

/-- An exit adds a failure of its own component, if it is one. -/
theorem failuresOf_settle (x : Exit) (r : Registry) (component : String) :
    (x.settle r).failuresOf component =
      if x.isFailure ∧ x.fetch.request.component = component then
        min (r.failuresOf component + 1) Registry.maxFailures
      else r.failuresOf component := by
  unfold settle
  rw [Registry.failuresOf_release]
  cases x.isFailure with
  | false => simp
  | true =>
    rw [if_pos rfl, Registry.failuresOf_addFailure]
    by_cases h : x.fetch.request.component = component <;> simp [h]

end Exit

namespace Workspace

/-- What an exit changes in a workspace. The rest that fetches share stays as it is. -/
structure Closed (x : Exit) (w w' : Workspace) : Prop where
  time : x.time = w.now
  registry : w'.registry = x.settle w.registry
  counters : w'.counters = x.tally w.counters
  names : w'.names = (x.store w.names).2
  outcome_of_rows : x.rows ≠ [] → x.outcome = some (x.store w.names).1
  outcome_of_no_rows : x.rows = [] → ∀ n, x.outcome ≠ some (.stored n)
  now : w'.now = w.now
  issued : w'.issued = w.issued

theorem close_registry (w : Workspace) (f : Fetch) (o : Outcome) :
    (w.close f o).registry =
      (if o.isFailure then w.registry.addFailure f.request.component else w.registry).release f.key := by
  unfold close
  cases o.isFailure <;> rfl

theorem close_counters (w : Workspace) (f : Fetch) (o : Outcome) :
    (w.close f o).counters =
      (if o.isFailure then w.counters.record .failed else w.counters).record .completed := by
  unfold close
  cases o.isFailure <;> rfl

theorem close_frame (w : Workspace) (f : Fetch) (o : Outcome) :
    (w.close f o).names = w.names ∧ (w.close f o).now = w.now ∧ (w.close f o).issued = w.issued := by
  unfold close
  cases o.isFailure <;> exact ⟨rfl, rfl, rfl⟩

/-- A fetch that brought no rows is closed with an outcome that says so. -/
theorem closed_of_no_rows (w : Workspace) (f : Fetch) (answer : Option Answer) (o : Outcome)
    (remote : Remote) (log : List LogEvent)
    (hr : Exit.rows ⟨w.now, f, answer, some o⟩ = []) (ho : ∀ n, o ≠ .stored n) :
    Closed ⟨w.now, f, answer, some o⟩ w ({ w with remote, log }.close f o) where
  time := rfl
  registry := close_registry _ f o
  counters := by
    rw [close_counters]
    rfl
  names := by
    rw [(close_frame _ f o).1, Exit.store, hr]
    rfl
  outcome_of_rows h := absurd hr h
  outcome_of_no_rows _ n h := ho n (Option.some.inj h)
  now := (close_frame _ f o).2.1
  issued := (close_frame _ f o).2.2

theorem finish_files (w : Workspace) (f : Fetch) {listing : Listing} (hr : listing.rows ≠ []) :
    w.finish f (.answered (.files listing)) =
      let (o, names) := w.names.fill f.epoch w.now f.request.host listing.rows 0
      (some o, { w with names }.close f o) := by
  simp [finish, outcome?, hr]

theorem finish_files_of_no_rows (w : Workspace) (f : Fetch) {listing : Listing}
    (hr : listing.rows = []) :
    w.finish f (.answered (.files listing)) = (some .empty, w.close f .empty) := by
  simp [finish, outcome?, hr]

/-- Every end but a break has an outcome. -/
theorem finish_fst_eq_none {w : Workspace} {f : Fetch} {e : Ending} :
    (w.finish f e).1 = none ↔ e = .panicked := by
  cases e with
  | answered a =>
    cases a with
    | files listing =>
      by_cases hr : listing.rows = []
      · simp [finish_files_of_no_rows w f hr]
      · simp [finish_files w f hr]
    | nothing => simp [finish, outcome?]
    | failed error => simp [finish, outcome?]
  | timedOut => simp [finish, outcome?]
  | panicked => simp [finish, outcome?]

/-- Every end of a call is an exit, with whatever answer it brought. -/
theorem closed_finish (w : Workspace) (f : Fetch) (e : Ending) :
    Closed ⟨w.now, f, e.answer?, (w.finish f e).1⟩ w (w.finish f e).2 := by
  cases e with
  | answered a =>
    cases a with
    | files listing =>
      by_cases hr : listing.rows = []
      · rw [finish_files_of_no_rows w f hr]
        exact closed_of_no_rows w f _ .empty w.remote w.log hr (by simp)
      · rw [finish_files w f hr]
        exact {
          time := rfl
          registry := close_registry _ f _
          counters := close_counters _ f _
          names := (close_frame _ f _).1
          outcome_of_rows := fun _ => rfl
          outcome_of_no_rows := fun h => absurd h hr
          now := (close_frame _ f _).2.1
          issued := (close_frame _ f _).2.2 }
    | nothing => exact closed_of_no_rows w f _ .empty w.remote w.log rfl (by simp)
    | failed error => exact closed_of_no_rows w f _ .failed w.remote _ rfl (by simp)
  | timedOut => exact closed_of_no_rows w f _ .timedOut w.remote _ rfl (by simp)
  | panicked =>
    exact {
      time := rfl
      registry := rfl
      counters := rfl
      names := rfl
      outcome_of_rows := fun h => absurd rfl h
      outcome_of_no_rows := fun _ _ h => nomatch h
      now := rfl
      issued := rfl }

/-- A fetch that begins either cannot reach its cluster and is closed, or makes its call. -/
theorem begin_cases (w : Workspace) (f : Fetch) :
    (∃ o remote, (o = .noController ∨ o = .noCluster) ∧
      w.begin f = (.inl o, { w with remote }.close f o)) ∨
    ∃ plan remote, w.begin f = (.inr (w.callOf plan), { w with remote, turn := w.turn + 1 }) := by
  unfold begin
  split
  · exact .inl ⟨_, _, .inl rfl, rfl⟩
  · exact .inl ⟨_, _, .inr rfl, rfl⟩
  · exact .inr ⟨_, _, rfl⟩

end Workspace
end LogCatalog
