import LogCatalog.Proofs.Catalog.InFlight
import LogCatalog.Proofs.Catalog.Recall

/-!
# Batches of lookups

A batch of lookups is made at one instant, while nothing runs in the background. Each of them finds what
the cache held before the batch, and it is counted by the failures and the markers from before the batch
and by whether an earlier lookup of the batch was for its key. The order of a batch therefore shows in
nothing but the order of the queue and the clusters that its fetches ask.
-/
namespace LogCatalog

theorem Counters.record_comm (c : Counters) (t u : Tally) : (c.record t).record u = (c.record u).record t := by
  cases t <;> cases u <;> rfl

/-- Counters do not tell in which order they were recorded. -/
theorem Counters.foldl_record_perm {ts ts' : List Tally} (perm : ts.Perm ts') (c : Counters) :
    ts.foldl Counters.record c = ts'.foldl Counters.record c :=
  haveI : RightCommutative Counters.record := ⟨record_comm⟩
  perm.foldl_eq c

/-- The lookup of file names for a request. -/
def Request.lookup (r : Request) : Catalog.Action := .names r.component r.host r.cluster

namespace Catalog

/-- The state after a batch. -/
def runBatch (s : Catalog) (batch : List Request) : Catalog := s.run (batch.map Request.lookup)

/-- The answers to the lookups of a batch, each in its turn. -/
def answers (s : Catalog) : List Request → List (Option NameSet)
  | [] => []
  | r :: batch => (s.lookUpNames r.component r.host r.cluster).1 :: (s.act r.lookup).answers batch

/-- What a lookup is counted as when it comes after these lookups of the batch. -/
def tallies (s : Catalog) (earlier : List Request) (r : Request) : List Tally :=
  if (s.work.names.find? s.now r.key).isSome then [.hit]
  else if s.work.registry.isBarred r.component then [.miss, .turnedAway]
  else if s.work.registry.isMarked r.key ∨ r.key ∈ earlier.map Request.key then [.miss, .joined]
  else [.miss, .queued]

/-- What the rest of a batch is counted as. -/
def batchTallies (s : Catalog) (earlier : List Request) : List Request → List Tally
  | [] => []
  | r :: batch => s.tallies earlier r ++ s.batchTallies (earlier ++ [r]) batch

/-- The lookup is counted as this and nothing else, and it queues one fetch, for its own request, just when
it is counted as queued. -/
structure CountsAs (s : Catalog) (r : Request) (ts : List Tally) : Prop where
  counters : (s.act r.lookup).work.counters = ts.foldl Counters.record s.work.counters
  queued : (s.queued? r.lookup).map Fetch.request = if .queued ∈ ts then some r else none

/-- What is left of a running catalog while a batch is made. -/
structure InBatch (s : Catalog) (batch : List Request) (u : Catalog) : Prop where
  sound : u.Sound
  running : u.phase = .running
  now : u.now = s.now
  found : ∀ k, u.work.names.find? s.now k = s.work.names.find? s.now k
  failures : u.work.registry.failures = s.work.registry.failures
  marked : ∀ k, u.work.registry.isMarked k ↔
    s.work.registry.isMarked k ∨ ∃ r ∈ batch, s.Admits r ∧ r.key = k

variable {s u u' : Catalog} {batch other earlier : List Request} {r q : Request}

theorem component_eq_of_key_eq (h : q.key = r.key) : q.component = r.component :=
  (Key.ofPair_inj.1 h).1

/-- Requests with one key are admitted together. -/
theorem Admits.of_key_eq (h : s.Admits r) (hk : q.key = r.key) : s.Admits q where
  missing := hk ▸ h.missing
  unbarred := component_eq_of_key_eq hk ▸ h.unbarred
  unmarked := hk ▸ h.unmarked

theorem inBatch_nil (h : s.Sound) (hp : s.phase = .running) : s.InBatch [] s where
  sound := h
  running := hp
  now := rfl
  found _ := rfl
  failures := rfl
  marked k := by simp

namespace InBatch

theorem isBarred_eq (h : s.InBatch batch u) (component : String) :
    u.work.registry.isBarred component = s.work.registry.isBarred component := by
  rw [Registry.isBarred, Registry.isBarred, Registry.failuresOf, Registry.failuresOf, h.failures]

theorem find?_eq (h : s.InBatch batch u) (k : Key) :
    u.work.names.find? u.now k = s.work.names.find? s.now k := by
  rw [h.now, h.found]

/-- The marker of an admitted key is taken by the first lookup of the batch for it. -/
theorem isMarked_iff (h : s.InBatch batch u) (ha : s.Admits r) :
    u.work.registry.isMarked r.key ↔ r.key ∈ batch.map Request.key := by
  rw [h.marked, List.mem_map]
  constructor
  · rintro (hm | ⟨q, hq, -, hk⟩)
    · exact absurd hm ha.unmarked
    · exact ⟨q, hq, hk⟩
  · rintro ⟨q, hq, hk⟩
    exact .inr ⟨q, hq, ha.of_key_eq hk, hk⟩

theorem admits_of_admits (h : s.InBatch batch u) (ha : u.Admits r) : s.Admits r where
  missing := h.find?_eq r.key ▸ ha.missing
  unbarred := h.isBarred_eq r.component ▸ ha.unbarred
  unmarked hm := ha.unmarked ((h.marked r.key).2 (.inl hm))

/-- A lookup that takes no marker leaves the registry to the batch as it is. -/
theorem of_same (h : s.InBatch batch u) (hs : u'.Sound) (hp : u'.phase = u.phase) (hn : u'.now = u.now)
    (hf : u'.work.names = (u.work.names.get u.now r.key).2) (hr : u'.work.registry = u.work.registry)
    (ha : s.Admits r → u.work.registry.isMarked r.key) : s.InBatch (batch ++ [r]) u' where
  sound := hs
  running := hp.trans h.running
  now := hn.trans h.now
  found k := by
    rw [hf, h.now, Cache.find?_get, h.found]
  failures := hr ▸ h.failures
  marked k := by
    rw [hr, h.marked]
    constructor
    · rintro (hm | ⟨q, hq, hadmits⟩)
      · exact .inl hm
      · exact .inr ⟨q, List.mem_append_left _ hq, hadmits⟩
    · rintro (hm | ⟨q, hq, hadmits, rfl⟩)
      · exact .inl hm
      · rcases List.mem_append.1 hq with hq | hq
        · exact .inr ⟨q, hq, hadmits, rfl⟩
        · obtain rfl := List.mem_singleton.1 hq
          exact (h.marked _).1 (ha hadmits)

/-- Each lookup of a batch keeps what the batch leaves. -/
theorem concat (h : s.InBatch batch u) (r : Request) : s.InBatch (batch ++ [r]) (u.act r.lookup) := by
  have hs := h.sound.act r.lookup
  obtain ⟨answer, -, hserved⟩ := act_names_of_running h.running r.component r.host r.cluster
  change Served u r answer (u.act r.lookup) at hserved
  generalize u.act r.lookup = u' at hs hserved
  cases hserved with
  | hit found =>
    refine h.of_same hs rfl rfl rfl rfl fun ha => ?_
    rw [h.find?_eq, ha.missing] at found
    exact nomatch found
  | turnedAway _ barred =>
    exact h.of_same hs rfl rfl rfl rfl fun ha => absurd (h.isBarred_eq _ ▸ barred) ha.unbarred
  | joined _ _ marked => exact h.of_same hs rfl rfl rfl rfl fun _ => marked
  | queued admits =>
    exact {
      sound := hs
      running := h.running
      now := h.now
      found := fun k => by
        change (u.work.names.get u.now r.key).2.find? s.now k = _
        rw [h.now, Cache.find?_get, h.found]
      failures := h.failures
      marked := fun k => by
        change Registry.isMarked { u.work.registry with marks := _ } k ↔ _
        rw [Registry.isMarked_insert, h.marked]
        constructor
        · rintro (rfl | hm | ⟨q, hq, hadmits⟩)
          · exact .inr ⟨r, List.mem_append_right _ List.mem_cons_self, h.admits_of_admits admits, rfl⟩
          · exact .inl hm
          · exact .inr ⟨q, List.mem_append_left _ hq, hadmits⟩
        · rintro (hm | ⟨q, hq, hadmits, rfl⟩)
          · exact .inr (.inl hm)
          · rcases List.mem_append.1 hq with hq | hq
            · exact .inr (.inr ⟨q, hq, hadmits, rfl⟩)
            · exact .inl (by rw [List.mem_singleton.1 hq]) }
  | refused _ shut => exact absurd (h.sound.serving h.running) shut

theorem run (h : s.InBatch earlier u) (batch : List Request) :
    s.InBatch (earlier ++ batch) (u.runBatch batch) := by
  induction batch generalizing u earlier with
  | nil =>
    rw [List.append_nil]
    exact h
  | cons r batch ih =>
    have hrest := ih (h.concat r)
    rw [List.append_assoc] at hrest
    exact hrest

theorem queued_mem_tallies_iff (h : s.InBatch batch u) : .queued ∈ s.tallies batch r ↔ u.Admits r := by
  unfold tallies
  constructor
  · intro hq
    split at hq
    · simp at hq
    · next missing =>
      split at hq
      · simp at hq
      · next unbarred =>
        split at hq
        · simp at hq
        · next unmarked =>
          have ha : s.Admits r := ⟨by simpa using missing, unbarred, fun hm => unmarked (.inl hm)⟩
          refine ⟨(h.find?_eq _).trans ha.missing, h.isBarred_eq _ ▸ unbarred, fun hm => ?_⟩
          exact unmarked (.inr ((h.isMarked_iff ha).1 hm))
  · intro hu
    have ha := h.admits_of_admits hu
    have hm : r.key ∉ batch.map Request.key := fun hm => hu.unmarked ((h.isMarked_iff ha).2 hm)
    simp [ha.missing, ha.unbarred, ha.unmarked, hm]

theorem counters_lookup (h : s.InBatch batch u) (r : Request) :
    (u.act r.lookup).work.counters = (s.tallies batch r).foldl Counters.record u.work.counters := by
  obtain ⟨answer, -, hserved⟩ := act_names_of_running h.running r.component r.host r.cluster
  change Served u r answer (u.act r.lookup) at hserved
  generalize u.act r.lookup = u' at hserved
  cases hserved with
  | hit found =>
    rw [h.find?_eq] at found
    simp [tallies, found, looked]
  | turnedAway missing barred =>
    rw [h.find?_eq] at missing
    rw [h.isBarred_eq] at barred
    simp [tallies, missing, barred, looked]
  | joined missing unbarred marked =>
    rw [h.find?_eq] at missing
    rw [h.isBarred_eq] at unbarred
    have hm : s.work.registry.isMarked r.key ∨ r.key ∈ batch.map Request.key := by
      rcases (h.marked r.key).1 marked with hm | ⟨q, hq, -, hk⟩
      · exact .inl hm
      · exact .inr (List.mem_map.2 ⟨q, hq, hk⟩)
    rw [tallies, if_neg (by simp [missing]), if_neg unbarred, if_pos hm]
    rfl
  | queued admits =>
    have ha := h.admits_of_admits admits
    have hm : r.key ∉ batch.map Request.key := fun hm => admits.unmarked ((h.isMarked_iff ha).2 hm)
    rw [tallies, if_neg (by simp [ha.missing]), if_neg ha.unbarred,
      if_neg (not_or.2 ⟨ha.unmarked, hm⟩)]
    rfl
  | refused _ shut => exact absurd (h.sound.serving h.running) shut

/-- How each lookup of a batch is counted. -/
theorem countsAs (h : s.InBatch batch u) (r : Request) : u.CountsAs r (s.tallies batch r) where
  counters := h.counters_lookup r
  queued := by
    by_cases ha : u.Admits r
    · obtain ⟨f, hf, hq, -⟩ := names_of_admits h.sound h.running ha
      rw [if_pos (h.queued_mem_tallies_iff.2 ha), Request.lookup, hq, Option.map_some, hf]
    · have hq := (names_of_not_admits h.sound (r := r) fun hr => ha hr.2).1
      rw [if_neg (mt h.queued_mem_tallies_iff.1 ha), Request.lookup, hq, Option.map_none]

theorem answers_eq (h : s.InBatch earlier u) (batch : List Request) :
    u.answers batch = batch.map fun r => s.work.names.find? s.now r.key := by
  induction batch generalizing u earlier with
  | nil => rfl
  | cons r batch ih =>
    rw [answers, ih (h.concat r), lookUpNames_fst h.running, List.map_cons, ← h.find?_eq r.key]
    rfl

theorem counters_run (h : s.InBatch earlier u) (batch : List Request) :
    (u.runBatch batch).work.counters =
      (s.batchTallies earlier batch).foldl Counters.record u.work.counters := by
  induction batch generalizing u earlier with
  | nil => rfl
  | cons r batch ih =>
    rw [batchTallies, List.foldl_append, ← h.counters_lookup]
    exact ih (h.concat r)

end InBatch

/-- How a lookup is counted depends on its key and on whether the key was looked up before. -/
theorem tallies_congr {earlier' : List Request} (hk : r.key = q.key)
    (he : r.key ∈ earlier.map Request.key ↔ q.key ∈ earlier'.map Request.key) :
    s.tallies earlier r = s.tallies earlier' q := by
  simp only [tallies, hk, component_eq_of_key_eq hk, ← he]

theorem batchTallies_congr {earlier' : List Request}
    (he : ∀ k, k ∈ earlier.map Request.key ↔ k ∈ earlier'.map Request.key) (batch : List Request) :
    s.batchTallies earlier batch = s.batchTallies earlier' batch := by
  induction batch generalizing earlier earlier' with
  | nil => rfl
  | cons r batch ih =>
    rw [batchTallies, batchTallies, tallies_congr rfl (he r.key), ih]
    intro k
    rw [List.map_append, List.mem_append, he, List.map_append, List.mem_append]

/-- Of two lookups with one key the first is counted in the same way, whichever it is, and so is the second.
Lookups with different keys are counted apart. -/
theorem batchTallies_perm (s : Catalog) (perm : batch.Perm other) (earlier : List Request) :
    (s.batchTallies earlier batch).Perm (s.batchTallies earlier other) := by
  induction perm generalizing earlier with
  | nil => exact .nil
  | cons r _ ih => exact (ih (earlier ++ [r])).append_left _
  | swap a b rest =>
    have hrest : s.batchTallies (earlier ++ [b] ++ [a]) rest = s.batchTallies (earlier ++ [a] ++ [b]) rest := by
      apply batchTallies_congr
      intro k
      simp only [List.map_append, List.mem_append, or_assoc, or_left_comm, or_comm]
    rw [batchTallies, batchTallies, batchTallies, batchTallies, hrest, ← List.append_assoc,
      ← List.append_assoc]
    refine List.Perm.append_right _ ?_
    by_cases hk : a.key = b.key
    · have hfirst : s.tallies earlier b = s.tallies earlier a := tallies_congr hk.symm (by rw [hk])
      have hsecond : s.tallies (earlier ++ [b]) a = s.tallies (earlier ++ [a]) b :=
        tallies_congr hk (by simp [hk])
      rw [hfirst, hsecond]
    · have ha : s.tallies (earlier ++ [b]) a = s.tallies earlier a :=
        tallies_congr rfl (by simp [hk])
      have hb : s.tallies (earlier ++ [a]) b = s.tallies earlier b :=
        tallies_congr rfl (by simp [Ne.symm hk])
      rw [ha, hb]
      exact List.perm_append_comm
  | trans _ _ ih ih' => exact (ih earlier).trans (ih' earlier)

theorem countsAs_take (h : s.Sound) (hp : s.phase = .running) (batch : List Request) (j : Nat)
    (r : Request) : (s.runBatch (batch.take j)).CountsAs r (s.tallies (batch.take j) r) :=
  ((inBatch_nil h hp).run (batch.take j)).countsAs r

/-- The first lookup of a batch for a key: the others for it are those that it comes before. -/
theorem exists_first (hr : r ∈ batch) :
    ∃ i, ∃ hi : i < batch.length, batch[i].key = r.key ∧
      ∀ j, r.key ∈ (batch.take j).map Request.key ↔ i < j := by
  have hmem : r.key ∈ batch.map Request.key := List.mem_map_of_mem hr
  have hlt := List.idxOf_lt_length_of_mem hmem
  have hget := List.getElem_idxOf hlt
  rw [List.getElem_map] at hget
  rw [List.length_map] at hlt
  refine ⟨_, hlt, hget, fun j => ?_⟩
  rw [List.map_take]
  exact List.mem_take_iff_idxOf_lt hmem

/-- Of the lookups of a batch for an admitted key the first one queues a fetch and all others join it. -/
theorem exists_queued_others_joined (h : s.Sound) (hp : s.phase = .running) (ha : s.Admits r)
    (hr : r ∈ batch) :
    ∃ i, ∃ hi : i < batch.length, batch[i].key = r.key ∧
      (s.runBatch (batch.take i)).CountsAs batch[i] [.miss, .queued] ∧
      ∀ j, ∀ hj : j < batch.length, batch[j].key = r.key → j ≠ i →
        (s.runBatch (batch.take j)).CountsAs batch[j] [.miss, .joined] := by
  obtain ⟨i, hi, hkey, hearlier⟩ := exists_first hr
  have htallies (j : Nat) (hj : j < batch.length) (hk : batch[j].key = r.key) :
      s.tallies (batch.take j) batch[j] = if i < j then [.miss, .joined] else [.miss, .queued] := by
    have hsame : s.tallies (batch.take j) batch[j] = s.tallies (batch.take j) r :=
      tallies_congr hk (by rw [hk])
    rw [hsame, tallies, if_neg (by simp [ha.missing]), if_neg ha.unbarred]
    exact if_congr ((or_iff_right ha.unmarked).trans (hearlier j)) rfl rfl
  refine ⟨i, hi, hkey, ?_, fun j hj hk hne => ?_⟩
  · have hcounts := countsAs_take h hp batch i batch[i]
    rwa [htallies i hi hkey, if_neg (Nat.lt_irrefl i)] at hcounts
  · have hcounts := countsAs_take h hp batch j batch[j]
    have hle : i < j + 1 := by
      rw [← hearlier, ← hk]
      exact List.mem_map_of_mem (List.mem_take_iff_getElem.2 ⟨j, by omega, rfl⟩)
    rwa [htallies j hj hk, if_pos (by omega)] at hcounts

/-- Lookups that a running catalog serves at one instant do not depend on their order. Each answers what was
cached before any of them. Whatever permutation they are made in, the marked keys, the failure counts, the
number of unfinished fetches and all counters are the same after them. Of those for a key that is neither
cached nor marked, and whose component has failed fewer than ten times, exactly one queues a fetch, and each
of the others is counted as joined. One for a component that has failed more often is turned away, its key
marked or not, unless the key is cached. -/
theorem batch_unordered (policy : Policy) (remote : Remote) (actions : List Action)
    (running : ((new policy remote).run actions).phase = .running) {batch other : List Request}
    (perm : batch.Perm other) :
    let s := (new policy remote).run actions
    let answer (r : Request) := s.work.names.find? s.now r.key
    let before (i : Nat) := s.runBatch (batch.take i)
    s.answers batch = batch.map answer ∧ s.answers other = other.map answer ∧
    (s.runBatch batch).markedKeys = (s.runBatch other).markedKeys ∧
    (∀ component, (s.runBatch batch).failuresOf component = (s.runBatch other).failuresOf component) ∧
    (s.runBatch batch).unfinishedFetches = (s.runBatch other).unfinishedFetches ∧
    (s.runBatch batch).work.counters = (s.runBatch other).work.counters ∧
    (∀ r ∈ batch, answer r = none → s.failuresOf r.component < 10 → ¬s.isMarked r.component r.host →
      ∃ i, ∃ hi : i < batch.length, batch[i].key = r.key ∧
        (before i).CountsAs batch[i] [.miss, .queued] ∧
        ∀ j, ∀ hj : j < batch.length, batch[j].key = r.key → j ≠ i →
          (before j).CountsAs batch[j] [.miss, .joined]) ∧
    ∀ i, ∀ hi : i < batch.length,
      ((answer batch[i]).isSome → (before i).CountsAs batch[i] [.hit]) ∧
      (answer batch[i] = none → 10 ≤ s.failuresOf batch[i].component →
        (before i).CountsAs batch[i] [.miss, .turnedAway]) ∧
      (answer batch[i] = none → s.failuresOf batch[i].component < 10 →
        s.isMarked batch[i].component batch[i].host → (before i).CountsAs batch[i] [.miss, .joined]) := by
  intro s answer before
  have h : s.Sound := sound_run policy remote actions
  have hnil := inBatch_nil h running
  have hbatch : s.InBatch batch (s.runBatch batch) := hnil.run batch
  have hother : s.InBatch other (s.runBatch other) := hnil.run other
  have hmarked : (s.runBatch batch).markedKeys = (s.runBatch other).markedKeys := by
    apply Registry.markedKeys_congr
    intro k
    rw [hbatch.marked, hother.marked]
    simp only [perm.mem_iff]
  refine ⟨hnil.answers_eq batch, hnil.answers_eq other, hmarked, ?_, ?_, ?_, ?_, ?_⟩
  · intro component
    rw [failuresOf, failuresOf, Registry.failuresOf, Registry.failuresOf, hbatch.failures,
      hother.failures]
  · rw [unfinishedFetches_eq hbatch.sound hbatch.running, unfinishedFetches_eq hother.sound hother.running,
      hmarked]
  · rw [hnil.counters_run, hnil.counters_run]
    exact Counters.foldl_record_perm (batchTallies_perm s perm []) _
  · intro r hr missing failures unmarked
    exact exists_queued_others_joined h running (admits_iff.2 ⟨missing, unmarked, failures⟩) hr
  · intro i hi
    have hcounts := countsAs_take h running batch i batch[i]
    have hbarred : s.work.registry.isBarred batch[i].component ↔ 10 ≤ s.failuresOf batch[i].component :=
      Registry.isBarred_iff
    refine ⟨fun found => ?_, fun missing failures => ?_, fun missing failures marked => ?_⟩
    · rwa [tallies, if_pos found] at hcounts
    · rwa [tallies, if_neg (Option.not_isSome_iff_eq_none.2 missing), if_pos (hbarred.2 failures)] at hcounts
    · rwa [tallies, if_neg (Option.not_isSome_iff_eq_none.2 missing), if_neg (by rw [hbarred]; omega),
        if_pos (.inl marked)] at hcounts

/-- Three lookups, two of them for one key, queue two fetches in either order. -/
theorem batch_unordered_of_two_keys :
    let s := (new (.ofHours 1) (answering [])).run [.start true]
    let batch : List Request :=
      [⟨"server", "host", "east"⟩, ⟨"server", "host", "west"⟩, ⟨"agent", "host", "east"⟩]
    s.phase = .running ∧ batch.Perm batch.reverse ∧
      (s.runBatch batch).work.counters = { misses := 3, queued := 2, joined := 1 } ∧
      (s.runBatch batch).work.counters = (s.runBatch batch.reverse).work.counters ∧
      (s.runBatch batch).pool.queue ≠ (s.runBatch batch.reverse).pool.queue :=
  ⟨by decide, (List.reverse_perm _).symm, by decide,
    (batch_unordered (.ofHours 1) (answering []) [.start true] (by decide)
      (List.reverse_perm _).symm).2.2.2.2.2.1, by decide⟩

end Catalog
end LogCatalog
