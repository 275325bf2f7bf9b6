import LogCatalog.Proofs.Catalog.Sound

/-!
# After the stop

A stop empties both caches and begins a new epoch, which no fetch that is still outstanding has noted.
Such fetches run to their end, but write nothing, and no fetch joins them.
-/
namespace LogCatalog

theorem Cache.isEmpty_clear {α : Type} (c : Cache α) : c.clear.isEmpty :=
  Std.ExtTreeMap.isEmpty_empty

theorem Cache.isEmpty_dropStale {α : Type} {c : Cache α} (h : c.isEmpty) (now : Nat) :
    (c.dropStale now).2.isEmpty := by
  have he : c.entries = ∅ := Std.ExtTreeMap.isEmpty_iff.1 h
  apply Std.ExtTreeMap.isEmpty_iff.2
  ext1 k
  rw [getElem?_dropStale, he, Std.ExtTreeMap.getElem?_empty]
  rfl

namespace Catalog

/-- The catalog is stopped and holds nothing. -/
structure Cleared (s : Catalog) : Prop where
  phase : s.phase = .stopped
  names : s.work.names.isEmpty
  tails : s.tails.isEmpty

variable {s : Catalog} {a : Action}

theorem cleared_stop (h : s.phase = .running) : (s.act .stop).Cleared := by
  rw [act_stop_of_running h]
  exact ⟨rfl, Cache.isEmpty_clear _, Cache.isEmpty_clear _⟩

theorem Cleared.not_running (h : s.Cleared) : s.phase ≠ .running := by
  rw [h.phase]
  exact nofun

theorem Cleared.move (h : s.Cleared) (hs : s.Sound) (m : Move) :
    (s.act (.background (.move m))).Cleared := by
  rcases act_move s m with ⟨e, -⟩ | ⟨work, pool, e, hstep⟩
  · rwa [e]
  · have hn : work.names = s.work.names := by
      cases hx : s.exit? (.background (.move m)) with
      | none =>
        rw [hx] at hstep
        exact hstep.quiet.2.2.2.2.1
      | some x =>
        rw [hx] at hstep
        have hmem := (hstep.outstanding_eq hs.tidy.tickets).1
        rw [hstep.closed.names]
        exact (Exit.store_of_epoch_ne (hs.outdated h.phase x.fetch hmem).symm).1
    rw [e]
    refine ⟨h.phase, ?_, h.tails⟩
    rw [hn]
    exact h.names

/-- No action fills a cache again. -/
theorem Cleared.act (h : s.Cleared) (hs : s.Sound) (a : Action) : (s.act a).Cleared := by
  cases a with
  | start runtime =>
    rcases act_start s runtime with e | ⟨idle, -⟩
    · rwa [e]
    · exact nomatch h.phase.symm.trans idle
  | stop => rwa [act_stop_of_not_running h.not_running]
  | names => rwa [act_names_of_not_running h.not_running]
  | tail => rwa [act_tail_of_not_running h.not_running]
  | openGate | install | regroup | elapse => exact ⟨h.phase, h.names, h.tails⟩
  | background b =>
    cases b with
    | move m => exact h.move hs m
    | sweep =>
      rcases act_sweep s with e | ⟨sweepAt, log, e⟩
      · rwa [e]
      · rw [e]
        exact ⟨h.phase, Cache.isEmpty_dropStale h.names _, Cache.isEmpty_dropStale h.tails _⟩

theorem Cleared.run (h : s.Cleared) (hs : s.Sound) (actions : List Action) :
    (s.run actions).Cleared := by
  induction actions generalizing s with
  | nil => exact h
  | cons a actions ih => exact ih (h.act hs a) (hs.act a)

/-- The action resumes a fetch whose call breaks off. -/
def BreaksOff (s : Catalog) (a : Action) : Prop :=
  ∃ ticket f c, a = .background (.move (.resume ticket)) ∧
    s.pool.find? ticket = some ⟨f, .calling c⟩ ∧
    c.poll s.work.remote s.now s.work.turn = .ended .panicked

/-- Only a call that breaks off leaves no outcome. -/
theorem outcome_eq_none_of_resume {ticket : Nat} {x : Exit}
    (hx : s.exit? (.background (.move (.resume ticket))) = some x) :
    x.outcome = none ↔ ∃ f c, s.pool.find? ticket = some ⟨f, .calling c⟩ ∧
      c.poll s.work.remote s.now s.work.turn = .ended .panicked := by
  simp only [exit?, Pool.exit?] at hx
  cases ht : s.pool.find? ticket with
  | none => simp [ht] at hx
  | some t =>
    obtain ⟨f, stage⟩ := t
    simp only [ht] at hx
    cases stage with
    | granted =>
      rcases s.work.begin_cases f with ⟨o, remote, -, hb⟩ | ⟨plan, remote, hb⟩
      · simp only [hb, Option.some.injEq] at hx
        subst hx
        simp
      · simp [hb] at hx
    | calling c =>
      cases hp : c.poll s.work.remote s.work.now s.work.turn with
      | waiting next => simp [hp] at hx
      | ended e =>
        simp only [hp, Option.ite_none_right_eq_some, Option.some.injEq] at hx
        obtain ⟨-, rfl⟩ := hx
        rw [Workspace.finish_fst_eq_none]
        constructor
        · rintro rfl
          exact ⟨f, c, rfl, hp⟩
        · rintro ⟨f', c', e', hp'⟩
          cases e'
          exact Progress.ended.inj (hp.symm.trans hp')

theorem outcome_eq_none_iff {x : Exit} (hx : s.exit? a = some x) : x.outcome = none ↔ s.BreaksOff a := by
  cases a with
  | background b =>
    cases b with
    | sweep => exact nomatch hx
    | move m =>
      cases m with
      | resume ticket =>
        rw [outcome_eq_none_of_resume hx]
        constructor
        · rintro ⟨f, c, hf, hc⟩
          exact ⟨ticket, f, c, rfl, hf, hc⟩
        · rintro ⟨_, f, c, ⟨⟩, hf, hc⟩
          exact ⟨f, c, hf, hc⟩
      | _ => exact nomatch hx
  | _ => exact nomatch hx

/-- Nothing joins the outstanding fetches. -/
theorem Cleared.queued?_eq_none (h : s.Cleared) (hs : s.Sound) (a : Action) :
    s.queued? a = none ∧ (s.act a).work.counters.queued = s.work.counters.queued := by
  cases traffic hs.tidy a with
  | still _ queues _ _ counter => exact ⟨queues, counter⟩
  | joins _ _ running => exact absurd running h.not_running
  | leaves x _ queues _ _ closed =>
    refine ⟨queues, ?_⟩
    rw [closed.counters, Exit.queued_tally]

theorem Cleared.arrivals_eq_nil (h : s.Cleared) (hs : s.Sound) (actions : List Action) :
    s.arrivals actions = [] ∧
      (s.run actions).work.counters.queued = s.work.counters.queued := by
  induction actions generalizing s with
  | nil => exact ⟨rfl, rfl⟩
  | cons a actions ih =>
    obtain ⟨hq, hc⟩ := h.queued?_eq_none hs a
    obtain ⟨harrivals, hcounter⟩ := ih (h.act hs a) (hs.act a)
    rw [arrivals, hq, harrivals, run_cons, hcounter, hc]
    exact ⟨rfl, rfl⟩

/-- An exit stores nothing; rows that it brought are discarded. -/
theorem Cleared.outcome (h : s.Cleared) (hs : s.Sound) {x : Exit} (hx : s.exit? a = some x) :
    (∀ n, x.outcome ≠ some (.stored n)) ∧ (x.rows ≠ [] → x.outcome = some .discarded) := by
  cases traffic hs.tidy a with
  | still exits => exact nomatch exits.symm.trans hx
  | joins _ _ _ _ exits => exact nomatch exits.symm.trans hx
  | leaves y exits _ member _ closed =>
    obtain rfl := Option.some.inj (exits.symm.trans hx)
    have hd : y.rows ≠ [] → y.outcome = some .discarded := by
      intro hr
      have hepoch := (hs.outdated h.phase y.fetch member).symm
      rw [closed.outcome_of_rows hr, (Exit.store_of_epoch_ne hepoch).2 hr]
    refine ⟨?_, hd⟩
    intro n e
    by_cases hr : y.rows = []
    · exact closed.outcome_of_no_rows hr n e
    · exact nomatch (hd hr).symm.trans e

/-- An exit counts as completed if it has an outcome, and gives the marker of its own fetch back. -/
theorem completed_of_exit? (h : s.Tidy) {x : Exit} (hx : s.exit? a = some x) :
    (s.act a).work.counters.completed =
      (if x.outcome.isSome then s.work.counters.completed + 1 else s.work.counters.completed) ∧
    ∀ k, (s.act a).work.registry.isMarked k ↔ x.fetch.key ≠ k ∧ s.work.registry.isMarked k := by
  cases traffic h a with
  | still exits => exact nomatch exits.symm.trans hx
  | joins _ _ _ _ exits => exact nomatch exits.symm.trans hx
  | leaves y exits _ _ _ closed =>
    obtain rfl := Option.some.inj (exits.symm.trans hx)
    constructor
    · rw [closed.counters, Exit.completed_tally]
    · intro k
      rw [closed.registry, Exit.isMarked_settle]

/-- From a stop on both caches are empty, no exit stores anything, rows that a fetch brought are
discarded, and no fetch is queued. The outstanding fetches are those that were outstanding at the stop
and have not left. One that leaves adds a failure of its component just when its outcome is a failure,
counts as completed unless its call broke off, and gives its marker back. -/
theorem cleared_after_stop (policy : Policy) (remote : Remote) (actions more : List Action)
    (h : ((new policy remote).run actions).phase = .running) :
    let s₀ := ((new policy remote).run actions).act .stop
    let s := s₀.run more
    (s.work.names.isEmpty ∧ s.tails.isEmpty) ∧
    (∀ x ∈ s₀.exits more,
      (∀ n, x.outcome ≠ some (.stored n)) ∧ (x.rows ≠ [] → x.outcome = some .discarded)) ∧
    s.work.counters.queued = s₀.work.counters.queued ∧
    (∀ f, f ∈ s.pool.outstanding ↔
      f ∈ s₀.pool.outstanding ∧ f ∉ (s₀.exits more).map Exit.fetch) ∧
    ∀ a x, s.exit? a = some x →
      (∀ component, (s.act a).failuresOf component =
        if (x.outcome = some .empty ∨ x.outcome = some .failed ∨ x.outcome = some .timedOut) ∧
            x.fetch.request.component = component then
          min (s.failuresOf component + 1) Registry.maxFailures
        else s.failuresOf component) ∧
      (s.BreaksOff a → (s.act a).work.counters.completed = s.work.counters.completed) ∧
      (¬s.BreaksOff a → (s.act a).work.counters.completed = s.work.counters.completed + 1) ∧
      ∀ k, (s.act a).work.registry.isMarked k ↔ x.fetch.key ≠ k ∧ s.work.registry.isMarked k := by
  intro s₀ s
  have hs₀ : s₀.Sound := (sound_run policy remote actions).act .stop
  have hc₀ : s₀.Cleared := cleared_stop h
  have hs : s.Sound := hs₀.run more
  have hc : s.Cleared := hc₀.run hs₀ more
  obtain ⟨harrivals, hcounter⟩ := hc₀.arrivals_eq_nil hs₀ more
  refine ⟨⟨hc.names, hc.tails⟩, ?_, hcounter, ?_, ?_⟩
  · intro x hx
    obtain ⟨before, a, after, -, he⟩ := exists_of_mem_exits hx
    exact (hc₀.run hs₀ before).outcome (hs₀.run before) he
  · intro f
    rw [mem_outstanding_run hs₀.tidy, harrivals]
    simp only [List.not_mem_nil, or_false]
  · intro a x hx
    obtain ⟨hcompleted, hmarks⟩ := completed_of_exit? hs.tidy hx
    refine ⟨?_, ?_, ?_, hmarks⟩
    · intro component
      simp only [(traffic hs.tidy a).failuresOf_act, hx, Option.some.injEq, exists_eq_left',
        Exit.isFailure_iff]
    · intro hb
      rw [hcompleted, (outcome_eq_none_iff hx).2 hb]
      rfl
    · intro hb
      rw [hcompleted, if_pos]
      rw [Option.isSome_iff_ne_none]
      exact fun e => hb ((outcome_eq_none_iff hx).1 e)

/-- A fetch that was queued before the stop is discarded after it. -/
theorem cleared_after_stop_of_queued :
    let running := (new (.ofHours 1) (answering [("server", ["a.log"])])).run
      [.start true, .names "server" "host" "east"]
    running.phase = .running ∧
      ((running.act .stop).exits firstFetch).map Exit.outcome = [some .discarded] ∧
      ((running.act .stop).run firstFetch).work.names.isEmpty :=
  ⟨by decide, by decide, (cleared_after_stop (.ofHours 1) (answering [("server", ["a.log"])])
    [.start true, .names "server" "host" "east"] firstFetch (by decide)).1.1⟩

end Catalog
end LogCatalog
