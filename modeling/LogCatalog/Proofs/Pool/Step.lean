import LogCatalog.Pool
import LogCatalog.Proofs.Workspace.Finish

/-!
# Steps of the pool

Every background step of the pool is one of seven: the loop takes a fetch, hands it over or ends, and
a fetch that has a permit begins its call, waits on, or leaves before or after its call. Only the last
two let a fetch leave. All others keep the outstanding fetches, in their order, and what fetches share.
-/
namespace LogCatalog.Pool

/-- How the fetch that a step resumes leaves the pool, if the step ends it. -/
def exit? (w : Workspace) (p : Pool) : Move → Option Exit
  | .resume ticket =>
    match p.find? ticket with
    | none => none
    | some ⟨f, .granted⟩ =>
      match (w.begin f).1 with
      | .inl o => some ⟨w.now, f, none, some o⟩
      | .inr _ => none
    | some ⟨f, .calling c⟩ =>
      if c.isDue w.remote w.now then
        match c.poll w.remote w.now w.turn with
        | .ended e => some ⟨w.now, f, e.answer?, (w.finish f e).1⟩
        | .waiting _ => none
      else none
  | _ => none

/-- The fetch that gets a permit in a step. -/
def granted? (p : Pool) : Move → Option Fetch
  | .grant => p.grant?.bind fun _ => p.held
  | _ => none

/-- The fetch that makes its call in a step, if one does. -/
def called? (w : Workspace) (p : Pool) : Move → Option Fetch
  | .resume ticket =>
    match p.find? ticket with
    | some ⟨f, .granted⟩ =>
      match (w.begin f).1 with
      | .inr _ => some f
      | .inl _ => none
    | _ => none
  | _ => none

/-- A step of the pool: the move, the exit that it makes, and the workspace and the pool after it. -/
inductive Step (w : Workspace) (p : Pool) : Move → Option Exit → Workspace → Pool → Prop where
  | receive {f : Fetch} {rest : List Fetch} (looping : p.looping) (held : p.held = none)
      (queue : p.queue = f :: rest) : Step w p .receive none w { p with queue := rest, held := some f }
  | grant {f : Fetch} {n : Nat} (looping : p.looping) (held : p.held = some f) (free : p.free = n + 1) :
      Step w p .grant none w { p with held := none, active := p.active ++ [⟨f, .granted⟩], free := n }
  | leave (looping : p.looping) (closed : ¬p.accepting) (held : p.held = none) (queue : p.queue = []) :
      Step w p .leave none w { p with looping := false }
  | begin {f : Fetch} (found : p.find? f.ticket = some ⟨f, .granted⟩) {remote : Remote} {plan : Plan}
      (reached : w.begin f = (.inr (w.callOf plan), { w with remote, turn := w.turn + 1 })) :
      Step w p (.resume f.ticket) none { w with remote, turn := w.turn + 1 }
        (p.restage f.ticket (.calling (w.callOf plan)))
  | wait {f : Fetch} {c next : Call} (found : p.find? f.ticket = some ⟨f, .calling c⟩)
      (due : c.isDue w.remote w.now) (polled : c.poll w.remote w.now w.turn = .waiting next) :
      Step w p (.resume f.ticket) none { w with turn := w.turn + 1 }
        (p.restage f.ticket (.calling next))
  | turnBack {f : Fetch} (found : p.find? f.ticket = some ⟨f, .granted⟩) {remote : Remote} {o : Outcome}
      (unreached : o = .noController ∨ o = .noCluster)
      (turned : w.begin f = (.inl o, { w with remote }.close f o)) :
      Step w p (.resume f.ticket) (some ⟨w.now, f, none, some o⟩) ({ w with remote }.close f o)
        (p.retire f.ticket)
  | finish {f : Fetch} {c : Call} {e : Ending} (found : p.find? f.ticket = some ⟨f, .calling c⟩)
      (due : c.isDue w.remote w.now) (polled : c.poll w.remote w.now w.turn = .ended e) :
      Step w p (.resume f.ticket) (some ⟨w.now, f, e.answer?, (w.finish f e).1⟩) (w.finish f e).2
        (p.retire f.ticket)

variable {w w' : Workspace} {p p' : Pool} {m : Move} {x : Exit} {x? : Option Exit}

theorem find?_eq_some {ticket : Nat} {t : Task} (h : p.find? ticket = some t) :
    t ∈ p.active ∧ t.fetch.ticket = ticket := by
  refine ⟨List.mem_of_find?_eq_some h, ?_⟩
  simpa using List.find?_some h

theorem step_of_resume? {ticket : Nat} (h : resume? w p ticket = some (w', p')) :
    Step w p (.resume ticket) (exit? w p (.resume ticket)) w' p' := by
  unfold resume? at h
  simp only [exit?]
  cases ht : p.find? ticket with
  | none => simp [ht] at h
  | some t =>
    obtain ⟨f, stage⟩ := t
    obtain rfl : f.ticket = ticket := (find?_eq_some ht).2
    cases stage with
    | granted =>
      rcases w.begin_cases f with ⟨o, remote, ho, hb⟩ | ⟨plan, remote, hb⟩
      · simp only [ht, hb] at h ⊢
        cases h
        exact .turnBack ht ho hb
      · simp only [ht, hb] at h ⊢
        cases h
        exact .begin ht hb
    | calling c =>
      by_cases hd : c.isDue w.remote w.now
      · simp only [ht, hd, if_true, Workspace.look] at h ⊢
        cases hp : c.poll w.remote w.now w.turn with
        | waiting next =>
          simp only [hp] at h ⊢
          cases h
          exact .wait ht hd hp
        | ended e =>
          simp only [hp] at h ⊢
          cases h
          exact .finish ht hd hp
      · simp [ht, hd] at h

theorem step_of_move? (h : move? w p m = some (w', p')) : Step w p m (exit? w p m) w' p' := by
  cases m with
  | receive =>
    obtain ⟨q, hq, e⟩ := Option.map_eq_some_iff.1 h
    cases e
    unfold receive? at hq
    split at hq
    · next f rest hl hh hqueue =>
      cases hq
      exact .receive hl hh hqueue
    · exact nomatch hq
  | grant =>
    obtain ⟨q, hq, e⟩ := Option.map_eq_some_iff.1 h
    cases e
    unfold grant? at hq
    split at hq
    · next f n hl hh hfree =>
      cases hq
      exact .grant hl hh hfree
    · exact nomatch hq
  | leave =>
    obtain ⟨q, hq, e⟩ := Option.map_eq_some_iff.1 h
    cases e
    unfold leave? at hq
    split at hq
    · next hp =>
      cases hq
      exact .leave hp.1 hp.2.1 (by simpa using hp.2.2.1) (by simpa using hp.2.2.2)
    · exact nomatch hq
  | resume ticket => exact step_of_resume? h

/-- A step that cannot be taken ends no fetch. -/
theorem exit?_eq_none (h : move? w p m = none) : exit? w p m = none := by
  cases m with
  | resume ticket =>
    rw [move?, resume?] at h
    rw [exit?]
    cases ht : p.find? ticket with
    | none => rfl
    | some t =>
      obtain ⟨f, stage⟩ := t
      simp only [ht] at h ⊢
      cases stage with
      | granted =>
        rcases w.begin_cases f with ⟨o, remote, -, hb⟩ | ⟨plan, remote, hb⟩ <;> simp [hb] at h
      | calling c =>
        by_cases hd : c.isDue w.remote w.now
        · cases hl : w.look f c with
          | mk looked w' =>
            simp only [hd, if_true, hl] at h
            cases looked <;> simp only [reduceCtorEq] at h
        · simp [hd]
  | _ => rfl

theorem granted?_eq_none (h : move? w p m = none) : p.granted? m = none := by
  cases m with
  | grant =>
    have hg : p.grant? = none := Option.map_eq_none_iff.1 h
    rw [granted?, hg, Option.bind_none]
  | _ => rfl

theorem called?_eq_none (h : move? w p m = none) : called? w p m = none := by
  cases m with
  | resume ticket =>
    rw [move?, resume?] at h
    rw [called?]
    split
    · next f hf =>
      rw [hf] at h
      rcases w.begin_cases f with ⟨o, remote, -, hb⟩ | ⟨plan, remote, hb⟩ <;> simp [hb] at h
    · rfl
  | _ => rfl

/-- The fetch that an exit names had a permit. -/
theorem Step.exists_active (h : Step w p m (some x) w' p') :
    ∃ t ∈ p.active, t.fetch = x.fetch ∧ p' = p.retire x.fetch.ticket := by
  cases h with
  | turnBack found => exact ⟨_, (find?_eq_some found).1, rfl, rfl⟩
  | finish found => exact ⟨_, (find?_eq_some found).1, rfl, rfl⟩

/-- An exit changes what fetches share as every exit does. -/
theorem Step.closed (h : Step w p m (some x) w' p') : Workspace.Closed x w w' := by
  cases h with
  | turnBack _ unreached =>
    apply w.closed_of_no_rows _ none _ _ w.log rfl
    rcases unreached with rfl | rfl <;> simp
  | finish => exact w.closed_finish _ _

end LogCatalog.Pool
