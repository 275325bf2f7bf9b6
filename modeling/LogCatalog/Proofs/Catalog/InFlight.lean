import LogCatalog.Proofs.Catalog.Sound

/-!
# Keys in flight

A key is marked as long as a fetch for it is outstanding, and no longer: in every state the marked keys
are the keys of the fetches that were queued and have not left, each of exactly one. A lookup queues a
fetch just when its key is neither cached nor marked and its component has not failed too often.
-/
namespace LogCatalog.Catalog

variable {s : Catalog}

theorem admits_iff {r : Request} :
    s.Admits r ↔
      s.work.names.find? s.now r.key = none ∧ ¬s.isMarked r.component r.host ∧
        s.failuresOf r.component < Registry.threshold := by
  constructor
  · intro h
    have hb := h.unbarred
    rw [Registry.isBarred_iff, Nat.not_le] at hb
    exact ⟨h.missing, h.unmarked, hb⟩
  · rintro ⟨missing, unmarked, hlt⟩
    refine ⟨missing, ?_, unmarked⟩
    rw [Registry.isBarred_iff, Nat.not_le]
    exact hlt

theorem mem_markedKeys (h : s.Sound) (k : Key) :
    k ∈ s.markedKeys ↔ ∃ f ∈ s.pool.outstanding, f.key = k := by
  rw [markedKeys, Registry.mem_markedKeys, h.books.marks, List.mem_map]

/-- Each marked key stands for one fetch. -/
theorem length_markedKeys (h : s.Sound) : s.markedKeys.length = s.pool.outstanding.length := by
  have hperm : s.markedKeys.Perm (s.pool.outstanding.map Fetch.key) := by
    apply (List.perm_ext_iff_of_nodup (Registry.nodup_markedKeys _) h.books.keys).mpr
    intro k
    rw [Registry.mem_markedKeys, h.books.marks]
  rw [hperm.length_eq, List.length_map]

theorem unfinishedFetches_eq (h : s.Sound) (hp : s.phase = .running) :
    s.unfinishedFetches = s.markedKeys.length := by
  rw [unfinishedFetches, if_pos hp, h.books.unfinished, length_markedKeys h]

theorem log_act_stop (h : s.Sound) (hp : s.phase = .running) :
    (s.act .stop).work.log = s.work.log ++ [.stopped s.markedKeys.length] := by
  rw [length_markedKeys h, ← h.books.unfinished, act_stop_of_running hp]

/-- Nothing but a missing entry, a free marker and a component in good standing is asked of a lookup
that queues a fetch. -/
theorem queued?_of_admits (h : s.Sound) (hp : s.phase = .running) {r : Request} (ha : s.Admits r) :
    s.queued? (.names r.component r.host r.cluster) = some (s.fetchFor r) := by
  obtain ⟨answer, -, hserved⟩ := act_names_of_running hp r.component r.host r.cluster
  change Served s r answer _ at hserved
  generalize hs' : s.act (.names r.component r.host r.cluster) = s' at hserved
  cases hserved with
  | hit found =>
    have missing := ha.missing
    rw [found] at missing
    exact nomatch missing
  | turnedAway _ barred => exact absurd barred ha.unbarred
  | joined _ _ marked => exact absurd marked ha.unmarked
  | queued =>
    rw [queued?, hs', if_pos (by simp)]
    exact List.getLast?_concat
  | refused _ shut => exact absurd (h.serving hp) shut

/-- A lookup of an admitted request queues one fetch for it. -/
theorem names_of_admits (h : s.Sound) (hp : s.phase = .running) {r : Request} (ha : s.Admits r) :
    ∃ f, f.request = r ∧ s.queued? (.names r.component r.host r.cluster) = some f ∧
      (s.act (.names r.component r.host r.cluster)).pool.outstanding = s.pool.outstanding ++ [f] ∧
      (s.act (.names r.component r.host r.cluster)).work.counters.queued =
        s.work.counters.queued + 1 := by
  have hq := queued?_of_admits h hp ha
  cases traffic h.tidy (.names r.component r.host r.cluster) with
  | still _ queues => exact nomatch queues.symm.trans hq
  | joins _ _ _ _ _ queues outstanding _ counter =>
    rw [Option.some.inj (queues.symm.trans hq)] at outstanding
    exact ⟨s.fetchFor r, rfl, hq, outstanding, counter⟩
  | leaves x exits => exact nomatch exits

/-- A lookup that is not running or not admitted queues none. -/
theorem names_of_not_admits (h : s.Sound) {r : Request} (ha : ¬(s.phase = .running ∧ s.Admits r)) :
    s.queued? (.names r.component r.host r.cluster) = none ∧
      (s.act (.names r.component r.host r.cluster)).pool.outstanding = s.pool.outstanding ∧
      (s.act (.names r.component r.host r.cluster)).work.counters.queued =
        s.work.counters.queued := by
  cases traffic h.tidy (.names r.component r.host r.cluster) with
  | still _ queues outstanding _ counter => exact ⟨queues, outstanding, counter⟩
  | joins q lookup running admits =>
    have hq : q = r := by
      injection lookup with hc hh hl
      exact (Request.mk.injEq _ _ _ _ _ _).mpr ⟨hc.symm, hh.symm, hl.symm⟩
    exact absurd ⟨running, hq ▸ admits⟩ ha
  | leaves x exits => exact nomatch exits

/-- In every state the marked keys are the keys of the outstanding fetches, which are those that were
queued and have not left and which share no key. While the catalog runs their number is the number of
unfinished fetches and the one that a stop reports. A lookup queues exactly one fetch when the catalog
runs, holds nothing fresh under the key, has not marked it and counts fewer than ten failures of the
component, and none otherwise. -/
theorem marked_iff_outstanding (policy : Policy) (remote : Remote) (actions : List Action) :
    let s₀ := new policy remote
    let s := s₀.run actions
    (∀ k, k ∈ s.markedKeys ↔ ∃ f ∈ s.pool.outstanding, f.key = k) ∧
    (s.pool.outstanding.map Fetch.key).Nodup ∧
    (∀ f, f ∈ s.pool.outstanding ↔
      f ∈ s₀.arrivals actions ∧ f ∉ (s₀.exits actions).map Exit.fetch) ∧
    (s.phase = .running →
      s.unfinishedFetches = s.markedKeys.length ∧
        (s.act .stop).work.log = s.work.log ++ [.stopped s.markedKeys.length]) ∧
    ∀ r : Request,
      let lookup := Action.names r.component r.host r.cluster
      let admitted := s.phase = .running ∧ s.work.names.find? s.now r.key = none ∧
        ¬s.isMarked r.component r.host ∧ s.failuresOf r.component < 10
      (admitted → ∃ f, f.request = r ∧ s.queued? lookup = some f ∧
        (s.act lookup).pool.outstanding = s.pool.outstanding ++ [f] ∧
        (s.act lookup).work.counters.queued = s.work.counters.queued + 1) ∧
      (¬admitted → s.queued? lookup = none ∧
        (s.act lookup).pool.outstanding = s.pool.outstanding ∧
        (s.act lookup).work.counters.queued = s.work.counters.queued) := by
  intro s₀ s
  have h : s.Sound := sound_run policy remote actions
  refine ⟨mem_markedKeys h, h.books.keys, ?_, ?_, ?_⟩
  · intro f
    rw [mem_outstanding_run (tidy_new policy remote)]
    constructor
    · rintro ⟨hf | hf, hx⟩
      · exact nomatch hf
      · exact ⟨hf, hx⟩
    · rintro ⟨hf, hx⟩
      exact ⟨.inr hf, hx⟩
  · intro hp
    exact ⟨unfinishedFetches_eq h hp, log_act_stop h hp⟩
  · intro r lookup admitted
    have hadmitted : admitted ↔ s.phase = .running ∧ s.Admits r := and_congr_right' admits_iff.symm
    rw [hadmitted]
    constructor
    · rintro ⟨hp, ha⟩
      exact names_of_admits h hp ha
    · exact names_of_not_admits h

end LogCatalog.Catalog
