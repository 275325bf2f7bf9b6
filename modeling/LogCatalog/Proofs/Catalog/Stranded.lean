import LogCatalog.Proofs.Catalog.InFlight
import LogCatalog.Proofs.Catalog.Outage
import LogCatalog.Proofs.Pool.Loss

/-!
# Catalogs that lost their runtime

A catalog that is started and then loses its runtime is bereft: no fetch is outstanding, no key is marked,
and no fetch will be queued again. The fetches that the loss found in the queue are stranded. They gave
their markers back, but they are counted as unfinished for good, so that the count is no longer that of
the marked keys.
-/
namespace LogCatalog.Catalog

/-- The fetches that the runtime leaves in the queue when it goes away. -/
def stranded (s : Catalog) : List Event → List Fetch
  | [] => []
  | .action a :: events => (s.act a).stranded events
  | .runtimeLost :: events => s.pool.queue ++ s.loseRuntime.stranded events

structure Bereft (s : Catalog) (n : Nat) : Prop where
  started : s.phase ≠ .idle
  outstanding : s.pool.outstanding = []
  looping : ¬s.pool.looping
  unmarked : ∀ k, ¬s.work.registry.isMarked k
  unfinished : s.pool.unfinished = n

variable {s s' : Catalog} {n : Nat}

theorem isMarked_loseRuntime (h : s.Sound) (k : Key) : ¬s.loseRuntime.work.registry.isMarked k := by
  rw [work_loseRuntime, Registry.isMarked_foldl_release, h.books.marks]
  exact fun hk => hk.1 hk.2

/-- The loss of the runtime before the start is no loss. -/
theorem Sound.loseRuntime (h : s.Sound) (idle : s.phase = .idle) : s.loseRuntime.Sound where
  tidy := h.tidy.loseRuntime
  books := by
    have hu : s.pool.unfinished = 0 := by
      rw [h.books.unfinished, h.tidy.idle idle]
      rfl
    refine Pool.balanced_of_outstanding_eq_nil rfl ?_ (isMarked_loseRuntime h)
    change s.pool.unfinished - _ = 0
    rw [hu, Nat.zero_sub]
  serving hp := nomatch idle.symm.trans hp
  current _ _ hf := nomatch hf
  outdated _ _ hf := nomatch hf

/-- After the start it leaves a bereft catalog. -/
theorem Sound.bereft (h : s.Sound) (started : s.phase ≠ .idle) :
    s.loseRuntime.Bereft s.pool.queue.length where
  started := started
  outstanding := rfl
  looping := Bool.false_ne_true
  unmarked := isMarked_loseRuntime h
  unfinished := by
    have hu := h.books.unfinished
    change s.pool.unfinished - (s.pool.active.length + s.pool.held.toList.length) = _
    rw [hu, Pool.outstanding, List.length_append, List.length_append, List.length_map]
    omega

namespace Bereft

/-- What being bereft reads. -/
theorem congr (h : s.Bereft n) (hp : s'.phase ≠ .idle) (ho : s'.pool.outstanding = s.pool.outstanding)
    (hl : s'.pool.looping = s.pool.looping) (hr : s'.work.registry = s.work.registry)
    (hu : s'.pool.unfinished = s.pool.unfinished) : s'.Bereft n where
  started := hp
  outstanding := ho.trans h.outstanding
  looping := hl ▸ h.looping
  unmarked k := hr ▸ h.unmarked k
  unfinished := hu.trans h.unfinished

/-- A lookup finds no loop to queue a fetch for. -/
theorem names (h : s.Bereft n) (component host cluster : String) :
    (s.act (.names component host cluster)).Bereft n := by
  by_cases hp : s.phase = .running
  · obtain ⟨answer, -, hserved⟩ := act_names_of_running hp component host cluster
    generalize s.act (.names component host cluster) = s' at hserved
    cases hserved with
    | hit | turnedAway | joined => exact h.congr h.started rfl rfl rfl rfl
    | queued _ _ looping => exact absurd looping h.looping
    | refused admits =>
      exact h.congr h.started rfl rfl (Registry.release_insert admits.unmarked) rfl
  · rwa [act_names_of_not_running hp]

/-- No action queues a fetch, and no step is left to take. -/
theorem act (h : s.Bereft n) (a : Action) : (s.act a).Bereft n := by
  cases a with
  | start runtime =>
    rcases act_start s runtime with e | ⟨idle, -⟩
    · rwa [e]
    · exact absurd idle h.started
  | stop =>
    by_cases hp : s.phase = .running
    · rw [act_stop_of_running hp]
      exact h.congr nofun rfl rfl rfl rfl
    · rwa [act_stop_of_not_running hp]
  | names component host cluster => exact h.names component host cluster
  | tail base component host cluster =>
    by_cases hp : s.phase = .running
    · obtain ⟨tails, remote, t, -, e⟩ := act_tail_of_running hp base component host cluster
      rw [e]
      exact h.congr h.started rfl rfl rfl rfl
    · rwa [act_tail_of_not_running hp]
  | openGate | install | regroup | elapse => exact h.congr h.started rfl rfl rfl rfl
  | background b =>
    cases b with
    | move m =>
      rcases act_move s m with ⟨e, -⟩ | ⟨work, pool, -, hs⟩
      · rwa [e]
      · rcases hs.looping_or_ne_nil with looping | outstanding
        · exact absurd looping h.looping
        · exact absurd h.outstanding outstanding
    | sweep =>
      rcases act_sweep s with e | ⟨sweepAt, log, e⟩
      · rwa [e]
      · rw [e]
        exact h.congr h.started rfl rfl rfl rfl

theorem queue_eq (h : s.Bereft n) : s.pool.queue = [] :=
  (List.append_eq_nil_iff.1 h.outstanding).2

/-- There is nothing left to lose. -/
theorem loseRuntime (h : s.Bereft n) : s.loseRuntime.Bereft n where
  started := h.started
  outstanding := rfl
  looping := Bool.false_ne_true
  unmarked k := by
    rw [work_loseRuntime, h.outstanding]
    exact h.unmarked k
  unfinished := by
    have ho := h.outstanding
    rw [Pool.outstanding, List.append_eq_nil_iff, List.append_eq_nil_iff, List.map_eq_nil_iff] at ho
    change s.pool.unfinished - (s.pool.active.length + s.pool.held.toList.length) = n
    rw [ho.1.1, ho.1.2, h.unfinished]
    rfl

theorem live (h : s.Bereft n) (events : List Event) :
    (s.live events).Bereft n ∧ s.stranded events = [] := by
  induction events generalizing s with
  | nil => exact ⟨h, rfl⟩
  | cons e events ih =>
    cases e with
    | action a => exact ih (h.act a)
    | runtimeLost =>
      rw [stranded, h.queue_eq]
      exact ih h.loseRuntime

end Bereft

/-- After any life a catalog is as sound as after a run, or it is bereft and counts what is stranded. -/
theorem Sound.live (h : s.Sound) (events : List Event) :
    (s.live events).Sound ∧ s.stranded events = [] ∨
      (s.live events).Bereft (s.stranded events).length := by
  induction events generalizing s with
  | nil => exact .inl ⟨h, rfl⟩
  | cons e events ih =>
    cases e with
    | action a => exact ih (h.act a)
    | runtimeLost =>
      rw [stranded]
      by_cases idle : s.phase = .idle
      · have hq : s.pool.queue = [] := (List.append_eq_nil_iff.1 (h.tidy.idle idle)).2
        rw [hq]
        exact ih (h.loseRuntime idle)
      · obtain ⟨hlive, hnone⟩ := (h.bereft idle).live events
        rw [hnone, List.append_nil]
        exact .inr hlive

/-- The marked keys are those of the outstanding fetches, each of one, and the stranded fetches are counted
besides. -/
theorem unfinished_live (policy : Policy) (remote : Remote) (events : List Event) :
    let s := (new policy remote).live events
    (∀ k, k ∈ s.markedKeys ↔ ∃ f ∈ s.pool.outstanding, f.key = k) ∧
    s.markedKeys.length = s.pool.outstanding.length ∧
    s.pool.unfinished = s.pool.outstanding.length + ((new policy remote).stranded events).length := by
  intro s
  rcases (sound_new policy remote).live events with ⟨h, hnone⟩ | h
  · refine ⟨mem_markedKeys h, length_markedKeys h, ?_⟩
    rw [hnone]
    exact h.books.unfinished
  · have hnone : s.markedKeys = [] :=
      List.eq_nil_iff_forall_not_mem.2 fun k hk => h.unmarked k (Registry.mem_markedKeys.1 hk)
    have ho : s.pool.outstanding = [] := h.outstanding
    rw [hnone, ho]
    refine ⟨fun k => by simp, rfl, ?_⟩
    rw [List.length_nil, Nat.zero_add]
    exact h.unfinished

/-- The count of unfinished fetches is that of the outstanding ones if and only if no loss of the runtime
found a fetch in the queue. In any pool, through any losses, every accepted fetch is outstanding, has ended
or was dropped, once; those that a loss found in the queue are counted besides the outstanding ones, and
nothing is taken off the count that is not on it. A running catalog counts its marked keys, which are those
of the outstanding fetches, and the same ones besides. -/
theorem unfinished_counts_stranded (work : Workspace) (workers : Nat) (incidents : List Shift.Incident)
    (policy : Policy) (remote : Remote) (events : List Event) :
    let x₀ : Shift := ⟨work, .start workers⟩
    let x := x₀.outlive incidents
    let lost := x₀.gather Shift.stranded incidents
    let s := (new policy remote).live events
    let stranded := (new policy remote).stranded events
    (x₀.gather Shift.entrants incidents).Nodup ∧
    (x₀.gather Shift.entrants incidents).Perm
      (x.pool.outstanding ++
        (x₀.gather Shift.leavers incidents ++ x₀.gather Shift.dropped incidents ++ lost)) ∧
    x.pool.unfinished = x.pool.outstanding.length + lost.length ∧
    (x.pool.unfinished = x.pool.outstanding.length ↔ lost = []) ∧
    x.pool.active.length + x.pool.held.toList.length ≤ x.pool.unfinished ∧
    (∀ k, k ∈ s.markedKeys ↔ ∃ f ∈ s.pool.outstanding, f.key = k) ∧
    s.markedKeys.length = s.pool.outstanding.length ∧
    (s.phase = .running →
      s.unfinishedFetches = s.markedKeys.length + stranded.length ∧
      (s.unfinishedFetches = s.markedKeys.length ↔ stranded = [])) ∧
    (s.phase ≠ .running → s.unfinishedFetches = 0) := by
  intro x₀ x lost s stranded
  have h := (Shift.accounted_start work workers).outlive incidents
  have hx : x.pool.unfinished = x.pool.outstanding.length + lost.length := h.unfinished
  obtain ⟨hmarked, hlength, hs⟩ := unfinished_live policy remote events
  refine ⟨List.Nodup.of_map _ h.tickets, h.places, hx, ?_, h.started_le, hmarked, hlength, ?_,
    fun hp => if_neg hp⟩
  · rw [hx, Nat.add_eq_left, List.length_eq_zero_iff]
  · intro hp
    have hu : s.unfinishedFetches = s.markedKeys.length + stranded.length := by
      rw [unfinishedFetches, if_pos hp, hs, hlength]
    refine ⟨hu, ?_⟩
    rw [hu, Nat.add_eq_left, List.length_eq_zero_iff]

/-- A fetch is queued when the runtime goes away: it is gone, and so is its marker, but it is counted. -/
theorem unfinished_of_queued_at_loss :
    let s := (new (.ofHours 1) (answering [])).live
      [.action (.start true), .action (.names "server" "host" "east"), .runtimeLost]
    s.phase = .running ∧ s.pool.outstanding = [] ∧ s.markedKeys = [] ∧ s.unfinishedFetches = 1 := by
  decide

end LogCatalog.Catalog
