import LogCatalog.Proofs.Catalog.Sweeps
import LogCatalog.Proofs.Clockwork.Rest
import LogCatalog.Proofs.Pool.Rest

/-!
# The catalog comes to rest

The schedule stops where no background step can be taken, since each step uses up some of what the
background can do before the clock moves, and a sweep is not due again at once. A catalog at rest stays
at rest until the clock reaches its next wake.
-/
namespace LogCatalog.Catalog

variable {s : Catalog} {time : Nat}

/-- No action changes the policy, and sweeps begin only if they are to take place at intervals. -/
theorem sweeps_act (s : Catalog) (a : Action) :
    (s.act a).policy = s.policy ∧
      ((s.act a).sweepAt ≠ none → s.sweepAt ≠ none ∨ 0 < s.policy.sweepEvery) := by
  cases a with
  | start runtime =>
    by_cases hp : s.phase = .idle
    · cases runtime with
      | false => exact ⟨rfl, .inl⟩
      | true =>
        rw [act_start_of_idle hp]
        refine ⟨rfl, fun hs => .inr ?_⟩
        by_contra hzero
        exact hs (if_pos (Nat.eq_zero_of_not_pos hzero))
    · rw [act_start_of_not_idle hp]
      exact ⟨rfl, .inl⟩
  | stop =>
    by_cases hp : s.phase = .running
    · rw [act_stop_of_running hp]
      exact ⟨rfl, fun hs => absurd rfl hs⟩
    · rw [act_stop_of_not_running hp]
      exact ⟨rfl, .inl⟩
  | names component host cluster =>
    by_cases hp : s.phase = .running
    · obtain ⟨answer, -, hserved⟩ := act_names_of_running hp component host cluster
      generalize s.act (.names component host cluster) = s' at hserved
      cases hserved <;> exact ⟨rfl, .inl⟩
    · rw [act_names_of_not_running hp]
      exact ⟨rfl, .inl⟩
  | tail base component host cluster =>
    by_cases hp : s.phase = .running
    · obtain ⟨tails, remote, t, -, e⟩ := act_tail_of_running hp base component host cluster
      rw [e]
      exact ⟨rfl, .inl⟩
    · rw [act_tail_of_not_running hp]
      exact ⟨rfl, .inl⟩
  | openGate | install | regroup | elapse => exact ⟨rfl, .inl⟩
  | background b =>
    cases b with
    | move m =>
      rcases act_move s m with ⟨e, -⟩ | ⟨work, pool, e, -⟩
      · rw [e]
        exact ⟨rfl, .inl⟩
      · rw [e]
        exact ⟨rfl, .inl⟩
    | sweep =>
      rcases s.act_sweep_cases with e | ⟨due, log, hs, -, e⟩
      · rw [e]
        exact ⟨rfl, .inl⟩
      · rw [e, hs]
        exact ⟨rfl, fun _ => .inl (Option.some_ne_none due)⟩

/-- The books are in order, and if there are sweeps then at intervals. -/
structure Steady (s : Catalog) : Prop where
  tidy : s.Tidy
  interval : s.sweepAt ≠ none → 0 < s.policy.sweepEvery

theorem steady_new (policy : Policy) (remote : Remote) : (new policy remote).Steady where
  tidy := tidy_new policy remote
  interval h := absurd rfl h

theorem Steady.act (h : s.Steady) (a : Action) : (s.act a).Steady where
  tidy := h.tidy.act a
  interval hs := by
    obtain ⟨hpolicy, hsweeps⟩ := s.sweeps_act a
    rw [hpolicy]
    exact (hsweeps hs).elim h.interval id

/-- The background does not move the clock. -/
theorem now_act_background (s : Catalog) (b : Background) : (s.act (.background b)).now = s.now := by
  cases b with
  | move m =>
    rcases act_move s m with ⟨e, -⟩ | ⟨work, pool, e, hstep⟩
    · rw [e]
    · rw [e]
      exact hstep.now_eq
  | sweep =>
    rcases act_sweep s with e | ⟨sweepAt, log, e⟩
    · rw [e]
    · rw [e]
      rfl

theorem clockwork_next?_eq_some_iff {next : Catalog} :
    clockwork.next? s = some next ↔ ∃ b, s.next? = some b ∧ s.act (.background b) = next :=
  Option.map_eq_some_iff

theorem clockwork_next?_eq_none_iff : clockwork.next? s = none ↔ s.Settled := Option.map_eq_none_iff

/-- What every background step preserves holds when the catalog has settled. -/
theorem settle_induction {P : Catalog → Prop} (h : P s)
    (step : ∀ s b, P s → P (s.act (.background b))) : P s.settle := by
  refine Clockwork.settleWithin_induction (fun s next hs hnext => ?_) h _
  obtain ⟨b, -, rfl⟩ := clockwork_next?_eq_some_iff.1 hnext
  exact step s b hs

theorem advance_induction {P : Catalog → Prop} (h : P s) (step : ∀ s a, P s → P (s.act a)) (ms : Nat) :
    P (s.advance ms) := by
  refine Clockwork.advance_induction (fun s next hs hnext => ?_) (fun s ms hs => step s (.elapse ms) hs) h ms
  obtain ⟨b, -, rfl⟩ := clockwork_next?_eq_some_iff.1 hnext
  exact step s _ hs

theorem settleWithin_of_some {b : Background} (h : s.next? = some b) (n : Nat) :
    clockwork.settleWithin (n + 1) s = clockwork.settleWithin n (s.act (.background b)) :=
  Clockwork.settleWithin_of_some (clockwork_next?_eq_some_iff.2 ⟨b, h, rfl⟩) n

theorem settleWithin_of_settled (h : s.Settled) (n : Nat) : clockwork.settleWithin n s = s :=
  Clockwork.settleWithin_of_none (clockwork_next?_eq_none_iff.2 h) n

theorem settle_of_settled (h : s.Settled) : s.settle = s := settleWithin_of_settled h _

theorem advance_eq (s : Catalog) (ms : Nat) :
    s.advance ms = clockwork.advanceWithin ms (s.now + ms) s.settle := rfl

theorem now_settle (s : Catalog) : s.settle.now = s.now :=
  settle_induction (P := fun t => t.now = s.now) rfl fun t b h => (t.now_act_background b).trans h

/-- How much the background can do before the clock moves: the work of the pool, and a sweep. -/
def remaining (s : Catalog) : Nat := s.pool.work + if s.sweepAt.any (· ≤ s.now) then 1 else 0

theorem remaining_act_lt (h : s.Steady) {b : Background} (hb : s.next? = some b) :
    (s.act (.background b)).remaining < s.remaining := by
  unfold next? at hb
  cases hm : Pool.next? s.work s.pool with
  | some m =>
    rw [hm] at hb
    cases hb
    obtain ⟨work, pool, hmove⟩ := Pool.exists_of_next? h.tidy.tickets hm
    have hstep := Pool.step_of_move? hmove
    have hact : s.act (.background (.move m)) = { s with work, pool } := by simp [act, step?, hmove]
    have hnow : Catalog.now { s with work, pool } = s.now := hstep.now_eq
    rw [hact, remaining, remaining, hnow]
    exact Nat.add_lt_add_right (hstep.work_lt h.tidy.tickets) _
  | none =>
    rw [hm] at hb
    by_cases hany : s.sweepAt.any (· ≤ s.now)
    · simp only [if_pos hany] at hb
      cases hb
      obtain ⟨due, hs, hd⟩ := (Option.any_eq_true _ _).1 hany
      obtain ⟨log, e⟩ := act_sweep_of_due hs (of_decide_eq_true hd)
      have hperiod := s.policy.sweepPeriod_pos (h.interval (by rw [hs]; exact Option.some_ne_none _))
      have hnext : s.now < nextSweep s.policy.sweepPeriod due s.now := lt_nextSweep hperiod
      have hlater : Option.any (· ≤ s.now) (some (nextSweep s.policy.sweepPeriod due s.now)) = false := by
        simpa using hnext
      have hnow : (s.act (.background .sweep)).now = s.now := now_act_background s .sweep
      rw [remaining, remaining, hnow, e, hlater, if_pos hany]
      exact Nat.lt_succ_self _
    · simp only [if_neg hany] at hb
      cases hb

/-- Settling ends where no background step can be taken. -/
theorem settled_settle (h : s.Steady) : s.settle.Settled := by
  have hle : s.remaining ≤ clockwork.backlog s := by
    refine Nat.add_le_add_left ?_ _
    split <;> omega
  refine clockwork_next?_eq_none_iff.1 (Clockwork.next?_settleWithin (fun s next hs hnext => ?_) h hle)
  obtain ⟨b, hb, rfl⟩ := clockwork_next?_eq_some_iff.1 hnext
  exact ⟨hs.act _, remaining_act_lt hs hb⟩

theorem Settled.still (h : s.Settled) (ht : s.Tidy) : s.pool.Still s.work :=
  fun m => Option.map_eq_none_iff.1 ((settled_iff ht).1 h (.move m))

/-- Whatever becomes due does so later. -/
theorem Settled.lt_wake (h : s.Settled) (ht : s.Tidy) {wake : Nat} (hw : wake ∈ s.wakes) :
    s.now < wake := by
  rcases List.mem_append.1 hw with hw | hw
  · have hsweep := sweep?_eq_none_iff.1 ((settled_iff ht).1 h .sweep)
    have hlater := (Option.any_eq_false _ _).1 hsweep wake (Option.mem_toList.1 hw)
    simpa using hlater
  · exact (h.still ht).lt_wakes ht.tickets hw

theorem moveClock_eq (h : s.now ≤ time) :
    clockwork.moveClock s time = { s with work := { s.work with now := time } } := by
  have hnow : s.work.now + (time - s.now) = time := Nat.add_sub_cancel' h
  change { s with work := { s.work with now := s.work.now + (time - s.now) } } = _
  rw [hnow]

theorem now_moveClock (h : s.now ≤ time) : (clockwork.moveClock s time).now = time := by
  rw [moveClock_eq h]
  rfl

theorem now_settle_moveClock (h : s.now ≤ time) : (clockwork.moveClock s time).settle.now = time := by
  rw [now_settle, now_moveClock h]

theorem moveClock_self (s : Catalog) : clockwork.moveClock s s.now = s := moveClock_eq (Nat.le_refl _)

theorem moveClock_moveClock (h : s.now ≤ time) {later : Nat} (hle : time ≤ later) :
    clockwork.moveClock (clockwork.moveClock s time) later = clockwork.moveClock s later := by
  have hnow : (clockwork.moveClock s time).now ≤ later := by rwa [now_moveClock h]
  rw [moveClock_eq hnow, moveClock_eq h, moveClock_eq (Nat.le_trans h hle)]

theorem Steady.moveClock (h : s.Steady) (time : Nat) : (clockwork.moveClock s time).Steady :=
  h.act (.elapse (time - s.now))

theorem Steady.settle (h : s.Steady) : s.settle.Steady := settle_induction h fun _ _ ht => ht.act _

theorem Steady.advance (h : s.Steady) (ms : Nat) : (s.advance ms).Steady :=
  advance_induction h (fun _ a hs => hs.act a) ms

/-- Before its next wake a catalog at rest stays at rest. -/
theorem Settled.moveClock (h : s.Settled) (ht : s.Tidy) (hle : s.now ≤ time)
    (hwake : ∀ wake ∈ s.wakes, time < wake) : (clockwork.moveClock s time).Settled := by
  have htidy : (clockwork.moveClock s time).Tidy := ht.act (.elapse (time - s.now))
  refine (settled_iff htidy).2 fun b => ?_
  rw [moveClock_eq hle]
  cases b with
  | move m =>
    have hstill := (h.still ht).later ht.tickets fun wake hw => hwake wake (List.mem_append_right _ hw)
    exact Option.map_eq_none_iff.2 (hstill m)
  | sweep =>
    refine sweep?_eq_none_iff.2 ((Option.any_eq_false _ _).2 fun due hs => ?_)
    have hlt := hwake due (List.mem_append_left _ (Option.mem_toList.2 hs))
    exact decide_eq_false (Nat.not_le.2 hlt)

/-- If nothing becomes due before the target, then the clock goes there at once. -/
theorem advanceWithin_of_no_wake (h : s.Settled) (ht : s.Tidy) {target : Nat} (hle : s.now ≤ target)
    (hwake : ∀ time, clockwork.nextWake? s = some time → target ≤ time) (n : Nat) :
    clockwork.advanceWithin n target s = (clockwork.moveClock s target).settle := by
  refine Clockwork.advanceWithin_of_no_wake (fun hnil => ?_) hwake n
  refine clockwork_next?_eq_none_iff.2 (h.moveClock ht hle fun wake hmem => ?_)
  have hnone : s.wakes = [] := hnil
  rw [hnone] at hmem
  cases hmem

end LogCatalog.Catalog
