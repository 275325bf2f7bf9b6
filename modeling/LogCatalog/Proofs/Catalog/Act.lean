import LogCatalog.Proofs.Catalog.History
import LogCatalog.Proofs.Catalog.LookUp

/-!
# What actions do

One statement for each kind of action: either the action cannot be taken, and nothing changes, or it
changes just what is said. What it does to the phase is told from the phase alone.
-/
namespace LogCatalog

/-- The phase after an action. -/
def Phase.next (phase : Phase) : Catalog.Action → Phase
  | .start runtime => if runtime ∧ phase = .idle then .running else phase
  | .stop => if phase = .running then .stopped else phase
  | _ => phase

/-- The phase only moves from idle to running and from running to stopped. -/
theorem Phase.next_cases (phase : Phase) (a : Catalog.Action) :
    phase.next a = phase ∨
      phase = .idle ∧ a = .start true ∧ phase.next a = .running ∨
      phase = .running ∧ a = .stop ∧ phase.next a = .stopped := by
  cases a with
  | start runtime =>
    by_cases h : runtime ∧ phase = .idle
    · obtain ⟨rfl, rfl⟩ := h
      exact .inr (.inl ⟨rfl, rfl, rfl⟩)
    · exact .inl (if_neg h)
  | stop =>
    by_cases h : phase = .running
    · exact .inr (.inr ⟨h, rfl, if_pos h⟩)
    · exact .inl (if_neg h)
  | names | tail | openGate | install | regroup | elapse | background => exact .inl rfl

namespace Catalog

variable {s : Catalog}

theorem act_start (s : Catalog) (runtime : Bool) :
    s.act (.start runtime) = s ∨
      s.phase = .idle ∧ ∃ sweepAt log, s.act (.start runtime) =
        { s with
          phase := .running
          pool := .start s.workers
          sweepAt
          work := { s.work with log } } := by
  cases runtime with
  | false => exact .inl rfl
  | true =>
    cases hp : s.phase with
    | idle =>
      refine .inr ⟨rfl, if s.policy.sweepEvery = 0 then none else some s.now,
        s.work.log ++ [.started s.policy.expireHours s.workers], ?_⟩
      simp only [act, start, hp, not_true_eq_false, if_false]
      rfl
    | running => exact .inl (by simp [act, start, hp])
    | stopped => exact .inl (by simp [act, start, hp])

theorem act_start_of_not_idle (h : s.phase ≠ .idle) (runtime : Bool) : s.act (.start runtime) = s := by
  rcases act_start s runtime with e | ⟨idle, -⟩
  · exact e
  · exact absurd idle h

theorem act_start_of_idle (h : s.phase = .idle) :
    s.act (.start true) =
      { s with
        phase := .running
        pool := .start s.workers
        sweepAt := if s.policy.sweepEvery = 0 then none else some s.now
        work := s.work.emit [.started s.policy.expireHours s.workers] } := by
  simp only [act, start, h, not_true_eq_false, if_false]
  rfl

theorem act_stop_of_not_running (h : s.phase ≠ .running) : s.act .stop = s := by
  simp [act, stop, h]

theorem act_stop_of_running (h : s.phase = .running) :
    s.act .stop =
      { s with
        phase := .stopped
        work := { s.work with
          names := s.work.names.clear
          log := s.work.log ++ [.stopped s.pool.unfinished] }
        tails := s.tails.clear
        pool := s.pool.close
        sweepAt := none } := by
  simp only [act, stop, h, if_true]
  rfl

theorem act_names_of_not_running (h : s.phase ≠ .running) (component host cluster : String) :
    s.act (.names component host cluster) = s := by
  rw [act, lookUpNames_of_not_running h]

/-- A lookup of file names while the catalog runs is served in one of five ways. -/
theorem act_names_of_running (h : s.phase = .running) (component host cluster : String) :
    ∃ answer, (s.lookUpNames component host cluster).1 = answer ∧
      Served s ⟨component, host, cluster⟩ answer (s.act (.names component host cluster)) :=
  ⟨_, rfl, served_lookUpNames h ⟨component, host, cluster⟩⟩

theorem act_tail_of_not_running (h : s.phase ≠ .running) (base component host cluster : String) :
    s.act (.tail base component host cluster) = s := by
  simp [act, lookUpTail, h]

/-- Building an address changes the addresses and the remote side. -/
theorem buildTail_frame (s : Catalog) (base component host cluster : String) :
    ∃ tails remote, (s.buildTail base component host cluster).2 =
      { s with tails, work := { s.work with remote } } := by
  unfold buildTail
  split
  · next c reached _ =>
    obtain ⟨uri?, remote⟩ := reached.askTail c base component host
    cases uri? with
    | some uri => exact ⟨_, remote, rfl⟩
    | none => exact ⟨s.tails, remote, rfl⟩
  · next remote _ _ => exact ⟨s.tails, remote, rfl⟩

/-- Only addresses, counters and the remote side see a lookup of an address. -/
theorem act_tail_of_running (h : s.phase = .running) (base component host cluster : String) :
    ∃ tails remote t, (t = .tailHit ∨ t = .tailMiss) ∧ s.act (.tail base component host cluster) =
      { s with tails, work := { s.work with remote, counters := s.work.counters.record t } } := by
  rw [act, lookUpTail, if_pos h]
  cases s.tails.get s.now (.ofPair component host) with
  | mk found tails =>
    cases found with
    | some uri => exact ⟨tails, s.work.remote, .tailHit, .inl rfl, rfl⟩
    | none =>
      obtain ⟨built, remote, hb⟩ := buildTail_frame
        { s with tails, work := s.work.count .tailMiss } base component host cluster
      exact ⟨built, remote, .tailMiss, .inr rfl, hb⟩

/-- A sweep drops from both caches. -/
theorem act_sweep (s : Catalog) :
    s.act (.background .sweep) = s ∨
      ∃ sweepAt log, s.act (.background .sweep) =
        { s with
          work := { s.work with names := (s.work.names.dropStale s.now).2, log }
          tails := (s.tails.dropStale s.now).2
          sweepAt } := by
  simp only [act, step?, sweep?]
  cases s.sweepAt with
  | none => exact .inl rfl
  | some due =>
    by_cases hd : due ≤ s.now
    · simp only [hd, if_true]
      exact .inr ⟨_, _, rfl⟩
    · simp [hd]

/-- A background step of the pool changes the workspace and the pool by one step, and nothing else. -/
theorem act_move (s : Catalog) (m : Move) :
    s.act (.background (.move m)) = s ∧ s.exit? (.background (.move m)) = none ∨
      ∃ work pool, s.act (.background (.move m)) = { s with work, pool } ∧
        Pool.Step s.work s.pool m (s.exit? (.background (.move m))) work pool := by
  cases hm : Pool.move? s.work s.pool m with
  | none => exact .inl ⟨by simp [act, step?, hm], Pool.exit?_eq_none hm⟩
  | some next =>
    obtain ⟨work, pool⟩ := next
    exact .inr ⟨work, pool, by simp [act, step?, hm], Pool.step_of_move? hm⟩

theorem phase_act (s : Catalog) (a : Action) : (s.act a).phase = s.phase.next a := by
  cases a with
  | start runtime =>
    by_cases h : runtime ∧ s.phase = .idle
    · obtain ⟨rfl, idle⟩ := h
      rw [act_start_of_idle idle]
      exact (if_pos ⟨rfl, idle⟩).symm
    · have e : s.act (.start runtime) = s := by
        cases runtime with
        | false => rfl
        | true => exact act_start_of_not_idle (fun idle => h ⟨rfl, idle⟩) true
      rw [e]
      exact (if_neg h).symm
  | stop =>
    by_cases h : s.phase = .running
    · rw [act_stop_of_running h]
      exact (if_pos h).symm
    · rw [act_stop_of_not_running h]
      exact (if_neg h).symm
  | names component host cluster =>
    by_cases h : s.phase = .running
    · obtain ⟨answer, -, hserved⟩ := act_names_of_running h component host cluster
      generalize s.act (.names component host cluster) = s' at hserved
      cases hserved <;> rfl
    · rw [act_names_of_not_running h]
      rfl
  | tail base component host cluster =>
    by_cases h : s.phase = .running
    · obtain ⟨tails, remote, t, -, e⟩ := act_tail_of_running h base component host cluster
      rw [e]
      rfl
    · rw [act_tail_of_not_running h]
      rfl
  | openGate | install | regroup | elapse => rfl
  | background b =>
    cases b with
    | move m => rcases act_move s m with ⟨e, -⟩ | ⟨work, pool, e, -⟩ <;> rw [e] <;> rfl
    | sweep => rcases act_sweep s with e | ⟨sweepAt, log, e⟩ <;> rw [e] <;> rfl

end Catalog
end LogCatalog
