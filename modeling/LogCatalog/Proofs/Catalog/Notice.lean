import LogCatalog.Catalog.Session
import LogCatalog.Proofs.Catalog.Agreement
import LogCatalog.Proofs.Catalog.Settled

/-!
# What is noticed of a run

An action is noticed by its answer, by the call that it makes, and by what callers can read and the remote
side has counted right after it. A run is watched through its actions of some kind. If all others go
unnoticed, it is watched as if they were left out.
-/
namespace LogCatalog.Catalog

/-- What callers can read and the remote side has counted. -/
structure Standing where
  phase : Phase
  marked : List Key
  failures : String → Nat
  unfinished : Nat
  counters : Counters
  calls : Calls

def standing (s : Catalog) : Standing where
  phase := s.phase
  marked := s.markedKeys
  failures := s.failuresOf
  unfinished := s.unfinishedFetches
  counters := s.work.counters
  calls := s.work.remote.calls

/-- What is noticed of an action: its answer, the call that it makes, and what stands after it. -/
structure Notice where
  reply : Session.Reply
  called : Option (Nat × Fetch)
  after : Standing

/-- The answer to an action. -/
def reply (s : Catalog) : Action → Session.Reply
  | .start runtime =>
    match s.start runtime with
    | .ok _ => .started
    | .error e => .refused e
  | .names component host cluster => .names (s.lookUpNames component host cluster).1
  | .tail base component host cluster => .uri (s.lookUpTail base component host cluster).1
  | .install name => .flag (s.work.remote.install name).1
  | _ => .nothing

def notice (s : Catalog) (a : Action) : Notice := ⟨s.reply a, s.called? a, (s.act a).standing⟩

/-- What is seen of the actions of one kind in a run. -/
def watch {α : Type} (kind : Action → Bool) (view : Notice → α) (s : Catalog) : List Action → List α
  | [] => []
  | a :: actions => (if kind a then [view (s.notice a)] else []) ++ (s.act a).watch kind view actions

/-- Two runs are watched alike, and end alike, if the actions of the other kind leave alike what was alike,
and if the actions of the kind do so too and are seen alike. -/
theorem watch_filter {α : Type} {R : Catalog → Catalog → Prop} (kind : Action → Bool) (view : Notice → α)
    (other : ∀ s s' a, R s s' → kind a = false → R (s.act a) s')
    (same : ∀ s s' a, R s s' → kind a → view (s.notice a) = view (s'.notice a) ∧ R (s.act a) (s'.act a))
    {s s' : Catalog} (h : R s s') (actions : List Action) :
    s.watch kind view actions = s'.watch kind view (actions.filter kind) ∧
      R (s.run actions) (s'.run (actions.filter kind)) := by
  induction actions generalizing s s' with
  | nil => exact ⟨rfl, h⟩
  | cons a actions ih =>
    cases ha : kind a with
    | false =>
      rw [List.filter_cons_of_neg (by simp [ha]), watch, ha]
      exact ih (other s s' a h ha)
    | true =>
      obtain ⟨hview, hact⟩ := same s s' a h ha
      obtain ⟨hwatch, hrun⟩ := ih hact
      rw [List.filter_cons_of_pos ha, watch, watch, ha, hview, hwatch]
      exact ⟨rfl, hrun⟩

variable {whole : Prop} {s s' : Catalog} {a : Action}

theorem reply_start_congr (h : s.phase = s'.phase) (runtime : Bool) :
    s.reply (.start runtime) = s'.reply (.start runtime) := by
  cases runtime with
  | false => rfl
  | true =>
    cases hp : s.phase <;> rw [hp] at h <;>
      simp only [reply, start, hp, ← h, not_true_eq_false, if_false]

theorem Agree.reply (h : s.Agree whole s') (ha : a.isTail → whole) : s.reply a = s'.reply a := by
  cases a with
  | start runtime => exact reply_start_congr h.phase runtime
  | names component host cluster =>
    exact congrArg Session.Reply.names (h.lookUpNames component host cluster).1
  | tail base component host cluster =>
    have hw : whole = True := eq_true (ha rfl)
    subst hw
    exact congrArg Session.Reply.uri (h.lookUpTail base component host cluster).1
  | install name => exact congrArg Session.Reply.flag (h.work.remote.install name).1
  | stop | openGate | regroup | elapse | background => rfl

theorem Agree.called? (h : s.Agree whole s') : s.called? a = s'.called? a := by
  cases a with
  | background b =>
    cases b with
    | move m => simp only [Catalog.called?, ← h.pool, Pool.called?_congr h.work, h.now]
    | sweep => rfl
  | _ => rfl

theorem Agree.unfinishedFetches (h : s.Agree whole s') :
    s.unfinishedFetches = s'.unfinishedFetches := by
  rw [Catalog.unfinishedFetches, Catalog.unfinishedFetches, h.phase, h.pool]

theorem Agree.markedKeys (h : s.Agree whole s') : s.markedKeys = s'.markedKeys := by
  rw [Catalog.markedKeys, Catalog.markedKeys, h.work.registry]

theorem Agree.failuresOf (h : s.Agree whole s') : s.failuresOf = s'.failuresOf := by
  funext component
  rw [Catalog.failuresOf, Catalog.failuresOf, h.work.registry]

/-- Whoever sees agreeing catalogs as a whole reads the same. -/
theorem Agree.standing (h : s.Agree True s') : s.standing = s'.standing := by
  simp only [Catalog.standing, h.phase, h.markedKeys, h.failuresOf, h.unfinishedFetches,
    h.work.counters.whole trivial, h.work.remote.calls trivial]

theorem Agree.notice (h : s.Agree True s') (a : Action) : s.notice a = s'.notice a := by
  have hact : (s.act a).Agree True (s'.act a) := h.act fun _ => trivial
  rw [Catalog.notice, Catalog.notice, h.reply fun _ => trivial, h.called?, hact.standing]

end LogCatalog.Catalog
