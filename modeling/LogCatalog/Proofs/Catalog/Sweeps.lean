import LogCatalog.Proofs.Catalog.Address
import LogCatalog.Proofs.Catalog.Settled

/-!
# What sweeps leave behind

A sweep leaves only fresh entries, and the next one is at most one interval away. So at the next sweep
every entry is at most a lifetime and an interval old, whether it was there at the last sweep or was
written since, and however late the last sweep came. While no sweep is due, every entry that is held is
younger than that.
-/
namespace LogCatalog

/-- The entries that are held were written by now, and at most a lifetime and a period before the sweep
at `due`. -/
def Cache.SweptBy {α : Type} (c : Cache α) (period due now : Nat) : Prop :=
  ∀ (k : Key) (e : Entry α), c.entries[k]? = some e →
    e.writtenAt ≤ now ∧ due ≤ e.writtenAt + (c.lifetime + period)

namespace Cache

variable {α : Type} {c c' : Cache α} {period due now : Nat}

/-- Entries may be dropped, and written now. -/
theorem SweptBy.of_written (h : c.SweptBy period due now) (hl : c'.lifetime = c.lifetime)
    (hdue : due ≤ now + period)
    (he : ∀ (k : Key) (e : Entry α), c'.entries[k]? = some e →
      c.entries[k]? = some e ∨ e.writtenAt = now) : c'.SweptBy period due now := by
  intro k e hk
  rw [hl]
  rcases he k e hk with hk | rfl
  · exact h k e hk
  · omega

theorem SweptBy.later (h : c.SweptBy period due now) {time : Nat} (ht : now ≤ time) :
    c.SweptBy period due time := by
  intro k e hk
  obtain ⟨hpast, hnear⟩ := h k e hk
  exact ⟨Nat.le_trans hpast ht, hnear⟩

/-- What a sweep keeps is fresh, so it can wait for the next one. -/
theorem SweptBy.dropStale (h : c.SweptBy period due now) {next : Nat} (hnext : next ≤ now + period) :
    (c.dropStale now).2.SweptBy period next now := by
  intro k e hk
  rw [getElem?_dropStale, Option.filter_eq_some_iff, Entry.isFreshAt_iff] at hk
  obtain ⟨hpast, -⟩ := h k e hk.1
  have hl : (c.dropStale now).2.lifetime = c.lifetime := rfl
  rw [hl]
  omega

theorem sweptBy_of_empty (h : ∀ k : Key, c.entries[k]? = none) : c.SweptBy period due now := by
  intro k e hk
  rw [h k] at hk
  exact nomatch hk

theorem getElem?_eq_none_of_unwritten {k : Key} (h : c.entries[k]? = none)
    (he : ∀ e, c'.entries[k]? = some e → c.entries[k]? = some e) : c'.entries[k]? = none := by
  apply Option.eq_none_iff_forall_ne_some.2
  intro e hk
  have hheld := he e hk
  rw [h] at hheld
  exact nomatch hheld

/-- Every entry after a listing was stored was held before it or is written with it. -/
theorem getElem?_fill_cases {c : Cache NameSet} {epoch : UInt64} {host : String}
    {rows : List (String × List String)} {entries : Nat} {k : Key} {e : Entry NameSet}
    (h : (c.fill epoch now host rows entries).2.entries[k]? = some e) :
    c.entries[k]? = some e ∨ e.writtenAt = now := by
  induction rows generalizing c entries with
  | nil => exact .inl h
  | cons row rows ih =>
    by_cases hc : c.epoch = epoch
    · rw [fill_cons_of_epoch_eq hc] at h
      rcases ih h with hk | hk
      · rw [getElem?_insert] at hk
        split at hk
        · cases hk
          exact .inr rfl
        · exact .inl hk
      · exact .inr hk
    · rw [fill_of_epoch_ne hc (List.cons_ne_nil _ _)] at h
      exact .inl h

theorem getElem?_of_get {k j : Key} {e : Entry α} (h : (c.get now k).2.entries[j]? = some e) :
    c.entries[j]? = some e := by
  rw [getElem?_get] at h
  split at h
  · exact (Option.filter_eq_some_iff.1 h).1
  · exact h

theorem keep_frame (c : Cache α) (now : Nat) (k : Key) (value : Option α) :
    (c.keep now k value).lifetime = c.lifetime ∧ (c.keep now k value).epoch = c.epoch := by
  cases value <;> exact ⟨rfl, rfl⟩

theorem getElem?_keep_cases {k j : Key} {value : Option α} {e : Entry α}
    (h : (c.keep now k value).entries[j]? = some e) : c.entries[j]? = some e ∨ e.writtenAt = now := by
  cases value with
  | none => exact .inl h
  | some v =>
    rw [keep, getElem?_insert] at h
    split at h
    · cases h
      exact .inr rfl
    · exact .inl h

end Cache

theorem Policy.sweepPeriod_le (p : Policy) : p.sweepPeriod ≤ p.sweepEvery := by
  unfold sweepPeriod
  split
  · exact Nat.le_refl _
  · next h => exact Nat.le_trans (by decide) (Nat.not_lt.1 h)

theorem Policy.sweepPeriod_pos {p : Policy} (h : 0 < p.sweepEvery) : 0 < p.sweepPeriod := by
  unfold sweepPeriod
  split
  · exact h
  · decide

namespace Catalog

theorem lt_nextSweep {interval due now : Nat} (h : 0 < interval) : now < nextSweep interval due now := by
  have hdiv := Nat.div_add_mod (now - due) interval
  have hmod := Nat.mod_lt (now - due) h
  rw [nextSweep, Nat.mul_add]
  omega

theorem nextSweep_le {interval due now : Nat} (h : due ≤ now) :
    nextSweep interval due now ≤ now + interval := by
  have hdiv := Nat.div_add_mod (now - due) interval
  rw [nextSweep, Nat.mul_add]
  omega

/-- Both caches have the lifetime of the policy and are empty until the start. While the catalog runs,
the next sweep is at most one period away and comes in time for every entry. -/
structure Timely (policy : Policy) (s : Catalog) : Prop where
  following : s.policy = policy
  names : s.work.names.lifetime = policy.lifetime
  tails : s.tails.lifetime = policy.lifetime
  unused : s.phase = .idle →
    ∀ k : Key, s.work.names.entries[k]? = none ∧ s.tails.entries[k]? = none
  swept : s.phase = .running → ∃ due, s.sweepAt = some due ∧ due ≤ s.now + policy.sweepPeriod ∧
    s.work.names.SweptBy policy.sweepPeriod due s.now ∧ s.tails.SweptBy policy.sweepPeriod due s.now

variable {policy : Policy} {s s' : Catalog}

theorem timely_new (policy : Policy) (remote : Remote) : Timely policy (new policy remote) where
  following := rfl
  names := rfl
  tails := rfl
  unused _ _ := ⟨Std.ExtTreeMap.getElem?_empty, Std.ExtTreeMap.getElem?_empty⟩
  swept h := nomatch h

/-- An action that leaves the clock and the sweeps alone may drop entries and, after the start, write
some. -/
theorem Timely.congr (h : Timely policy s) (hp : s'.policy = s.policy) (hphase : s'.phase = s.phase)
    (hsweep : s'.sweepAt = s.sweepAt) (hnow : s'.now = s.now)
    (hn : s'.work.names.lifetime = s.work.names.lifetime) (ht : s'.tails.lifetime = s.tails.lifetime)
    (hnames : ∀ (k : Key) (e : Entry NameSet), s'.work.names.entries[k]? = some e →
      s.work.names.entries[k]? = some e ∨ s.phase ≠ .idle ∧ e.writtenAt = s.now)
    (htails : ∀ (k : Key) (e : Entry String), s'.tails.entries[k]? = some e →
      s.tails.entries[k]? = some e ∨ s.phase ≠ .idle ∧ e.writtenAt = s.now) :
    Timely policy s' where
  following := hp.trans h.following
  names := hn.trans h.names
  tails := ht.trans h.tails
  unused hidle k := by
    rw [hphase] at hidle
    obtain ⟨hk, hk'⟩ := h.unused hidle k
    constructor
    · exact Cache.getElem?_eq_none_of_unwritten hk fun e he =>
        (hnames k e he).resolve_right fun hwritten => hwritten.1 hidle
    · exact Cache.getElem?_eq_none_of_unwritten hk' fun e he =>
        (htails k e he).resolve_right fun hwritten => hwritten.1 hidle
  swept hrunning := by
    obtain ⟨due, hs, hdue, hswept, hswept'⟩ := h.swept (hphase ▸ hrunning)
    rw [hsweep, hnow]
    exact ⟨due, hs, hdue,
      hswept.of_written hn hdue fun k e he => (hnames k e he).imp_right And.right,
      hswept'.of_written ht hdue fun k e he => (htails k e he).imp_right And.right⟩

theorem Timely.start (h : Timely policy s) (positive : 0 < policy.sweepEvery) (runtime : Bool) :
    Timely policy (s.act (.start runtime)) := by
  by_cases hp : s.phase = .idle
  · cases runtime with
    | false => exact h
    | true =>
      have hne : s.policy.sweepEvery ≠ 0 := by rw [h.following]; omega
      rw [act_start_of_idle hp, if_neg hne]
      refine ⟨h.following, h.names, h.tails, nofun, fun _ => ?_⟩
      refine ⟨s.now, rfl, Nat.le_add_right _ _, ?_, ?_⟩
      · exact Cache.sweptBy_of_empty fun k => (h.unused hp k).1
      · exact Cache.sweptBy_of_empty fun k => (h.unused hp k).2
  · rwa [act_start_of_not_idle hp]

theorem Timely.stop (h : Timely policy s) : Timely policy (s.act .stop) := by
  by_cases hp : s.phase = .running
  · rw [act_stop_of_running hp]
    exact ⟨h.following, h.names, h.tails, nofun, nofun⟩
  · rwa [act_stop_of_not_running hp]

theorem Timely.lookUp (h : Timely policy s) (component host cluster : String) :
    Timely policy (s.act (.names component host cluster)) := by
  by_cases hp : s.phase = .running
  · obtain ⟨answer, -, hserved⟩ := act_names_of_running hp component host cluster
    generalize s.act (.names component host cluster) = s' at hserved
    cases hserved with
    | _ =>
      exact h.congr rfl rfl rfl rfl (Cache.get_lifetime _ _ _) rfl
        (fun k e he => .inl (Cache.getElem?_of_get he)) (fun _ _ he => .inl he)
  · rwa [act_names_of_not_running hp]

theorem Timely.address (h : Timely policy s) (base component host cluster : String) :
    Timely policy (s.act (.tail base component host cluster)) := by
  by_cases hp : s.phase = .running
  · have hne : s.phase ≠ .idle := by rw [hp]; exact nofun
    rw [act, lookUpTail_of_running hp]
    cases s.tails.find? s.now (.ofPair component host) with
    | some uri =>
      exact h.congr rfl rfl rfl rfl rfl (Cache.get_lifetime _ _ _) (fun _ _ he => .inl he)
        fun k e he => .inl (Cache.getElem?_of_get he)
    | none =>
      refine h.congr rfl rfl rfl rfl rfl ?_ (fun _ _ he => .inl he) fun k e he => ?_
      · exact (Cache.keep_frame _ _ _ _).1.trans (Cache.get_lifetime _ _ _)
      · rcases Cache.getElem?_keep_cases he with he | he
        · exact .inl (Cache.getElem?_of_get he)
        · exact .inr ⟨hne, he⟩
  · rwa [act_tail_of_not_running hp]

/-- A sweep that is due drops what is stale and puts the next one off. -/
theorem act_sweep_of_due {due : Nat} (hs : s.sweepAt = some due) (hd : due ≤ s.now) :
    ∃ log, s.act (.background .sweep) =
      { s with
        work := { s.work with names := (s.work.names.dropStale s.now).2, log }
        tails := (s.tails.dropStale s.now).2
        sweepAt := some (nextSweep s.policy.sweepPeriod due s.now) } := by
  simp only [act, step?, sweep?, hs, if_pos hd]
  exact ⟨_, rfl⟩

theorem act_sweep_cases (s : Catalog) :
    s.act (.background .sweep) = s ∨ ∃ due log, s.sweepAt = some due ∧ due ≤ s.now ∧
      s.act (.background .sweep) =
        { s with
          work := { s.work with names := (s.work.names.dropStale s.now).2, log }
          tails := (s.tails.dropStale s.now).2
          sweepAt := some (nextSweep s.policy.sweepPeriod due s.now) } := by
  cases hs : s.sweepAt with
  | none =>
    refine .inl ?_
    simp only [act, step?, sweep?, hs, Option.getD_none]
  | some due =>
    by_cases hd : due ≤ s.now
    · obtain ⟨log, e⟩ := act_sweep_of_due hs hd
      exact .inr ⟨due, log, rfl, hd, e⟩
    · refine .inl ?_
      simp only [act, step?, sweep?, hs, if_neg hd, Option.getD_none]

theorem Timely.sweep (h : Timely policy s) : Timely policy (s.act (.background .sweep)) := by
  rcases s.act_sweep_cases with e | ⟨due, log, hs, hd, e⟩
  · rwa [e]
  · rw [e]
    refine ⟨h.following, h.names, h.tails, fun hidle k => ?_, fun hrunning => ?_⟩
    · obtain ⟨hk, hk'⟩ := h.unused hidle k
      simp only [Cache.getElem?_dropStale, hk, hk', Option.filter_none, and_self]
    · obtain ⟨due', hs', -, hswept, hswept'⟩ := h.swept hrunning
      have hnext : nextSweep policy.sweepPeriod due s.now ≤ s.now + policy.sweepPeriod := nextSweep_le hd
      refine ⟨_, rfl, ?_, ?_, ?_⟩
      · rw [h.following]
        exact hnext
      · rw [h.following]
        exact hswept.dropStale hnext
      · rw [h.following]
        exact hswept'.dropStale hnext

theorem Timely.move (h : Timely policy s) (ht : s.Tidy) (m : Move) :
    Timely policy (s.act (.background (.move m))) := by
  rcases act_move s m with ⟨e, -⟩ | ⟨work, pool, e, hstep⟩
  · rwa [e]
  · rw [e]
    cases hx : s.exit? (.background (.move m)) with
    | none =>
      rw [hx] at hstep
      obtain ⟨-, -, -, -, hn, hnow, -⟩ := hstep.quiet
      exact h.congr rfl rfl rfl hnow (congrArg Cache.lifetime hn) rfl
        (fun k e he => .inl (by rw [← hn]; exact he)) fun _ _ he => .inl he
    | some x =>
      rw [hx] at hstep
      have hc := hstep.closed
      have hl : work.names.lifetime = s.work.names.lifetime := by
        rw [hc.names]
        exact (Cache.fill_frame _ _ _ _ _ _).1
      -- before the start there is no fetch that could leave
      have hne : s.phase ≠ .idle := by
        intro hidle
        have hmem := (hstep.outstanding_eq ht.tickets).1
        rw [ht.idle hidle] at hmem
        exact nomatch hmem
      refine h.congr rfl rfl rfl hc.now hl rfl (fun k e he => ?_) fun _ _ he => .inl he
      change work.names.entries[k]? = some e at he
      rw [hc.names] at he
      rcases Cache.getElem?_fill_cases he with he | he
      · exact .inl he
      · exact .inr ⟨hne, he.trans hc.time⟩

/-- Every action keeps the entries in time for the next sweep. -/
theorem Timely.act (h : Timely policy s) (ht : s.Tidy) (positive : 0 < policy.sweepEvery)
    (a : Action) : Timely policy (s.act a) := by
  cases a with
  | start runtime => exact h.start positive runtime
  | stop => exact h.stop
  | names component host cluster => exact h.lookUp component host cluster
  | tail base component host cluster => exact h.address base component host cluster
  | openGate | install | regroup =>
    exact h.congr rfl rfl rfl rfl rfl rfl (fun _ _ he => .inl he) fun _ _ he => .inl he
  | elapse ms =>
    have hle : s.now ≤ (s.act (.elapse ms)).now := Nat.le_add_right _ _
    refine ⟨h.following, h.names, h.tails, h.unused, fun hrunning => ?_⟩
    obtain ⟨due, hs, hdue, hswept, hswept'⟩ := h.swept hrunning
    exact ⟨due, hs, Nat.le_trans hdue (Nat.add_le_add_right hle _), hswept.later hle,
      hswept'.later hle⟩
  | background b =>
    cases b with
    | move m => exact h.move ht m
    | sweep => exact h.sweep

theorem timely_run (policy : Policy) (positive : 0 < policy.sweepEvery) (remote : Remote)
    (actions : List Action) : Timely policy ((new policy remote).run actions) := by
  have hrun := run_induction (P := fun s => s.Tidy ∧ Timely policy s)
    ⟨tidy_new policy remote, timely_new policy remote⟩
    (fun s a h => ⟨h.1.act a, h.2.act h.1 positive a⟩) actions
  exact hrun.2

/-- When a catalog runs and no background step can be taken, every entry of either cache was written less
than a lifetime and an interval between sweeps ago, whether or not anybody has looked it up since,
however the clock has moved and however many sweeps were missed. -/
theorem age_lt_of_settled (policy : Policy) (interval : 0 < policy.sweepEvery) (remote : Remote)
    (actions : List Action) (running : ((new policy remote).run actions).phase = .running)
    (settled : ∀ b, ((new policy remote).run actions).step? b = none) :
    let s := (new policy remote).run actions
    (∀ (k : Key) (e : Entry NameSet), s.work.names.entries[k]? = some e →
      e.writtenAt ≤ s.now ∧ s.now - e.writtenAt < policy.lifetime + policy.sweepEvery) ∧
    ∀ (k : Key) (e : Entry String), s.tails.entries[k]? = some e →
      e.writtenAt ≤ s.now ∧ s.now - e.writtenAt < policy.lifetime + policy.sweepEvery := by
  intro s
  have h : Timely policy s := timely_run policy interval remote actions
  obtain ⟨due, hs, -, hswept, hswept'⟩ := h.swept running
  have hnow : s.now < due := by
    have hsweep : s.sweep? = none := settled .sweep
    rw [sweep?, hs] at hsweep
    simpa using hsweep
  have hperiod := policy.sweepPeriod_le
  constructor
  · intro k e hk
    obtain ⟨hpast, hnear⟩ := hswept k e hk
    rw [h.names] at hnear
    omega
  · intro k e hk
    obtain ⟨hpast, hnear⟩ := hswept' k e hk
    rw [h.tails] at hnear
    omega

/-- The clock leaps over eleven sweeps to the twelfth, which keeps an entry that is almost as old as the
lifetime. It is held until just before the next sweep. -/
theorem age_lt_of_settled_of_leap :
    let s₀ := new (.ofHours 1) (answering [("server", ["a.log"])])
    let actions : List Action := [.start true, .background .sweep, .names "server" "host" "east",
      .elapse 5] ++ firstFetch ++ [.elapse 3599995, .background .sweep, .elapse 299999]
    let s := s₀.run actions
    let k := Key.ofPair "server" "host"
    0 < (Policy.ofHours 1).sweepEvery ∧ s.phase = .running ∧ (∀ b, s.step? b = none) ∧
      s.work.names.entries[k]?.map Entry.writtenAt = some 5 ∧ s.work.names.find? s.now k = none ∧
      s.now - 5 < 3600000 + 300000 := by
  intro s₀ actions s k
  have hsettled : s.Settled := show s.next? = none by decide +kernel
  have settled : ∀ b, s.step? b = none :=
    (settled_iff (sound_run (.ofHours 1) (answering [("server", ["a.log"])]) actions).tidy).1 hsettled
  have held : s.work.names.entries[k]?.map Entry.writtenAt = some 5 := by decide +kernel
  have running : s.phase = .running := by decide +kernel
  have interval : 0 < (Policy.ofHours 1).sweepEvery := Nat.succ_pos 299999
  obtain ⟨hages, -⟩ := age_lt_of_settled (.ofHours 1) interval (answering [("server", ["a.log"])]) actions
    running settled
  have hs : (new (.ofHours 1) (answering [("server", ["a.log"])])).run actions = s := rfl
  rw [hs] at hages
  obtain ⟨e, he, hw⟩ := Option.map_eq_some_iff.1 held
  have hage : s.now - e.writtenAt < 3600000 + 300000 := (hages k e he).2
  rw [hw] at hage
  exact ⟨interval, running, settled, held, by decide +kernel, hage⟩

end Catalog
end LogCatalog
