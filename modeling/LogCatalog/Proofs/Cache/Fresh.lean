import LogCatalog.Proofs.Cache.Fill

/-!
# What is fresh in a cache

Without its stale entries a cache is determined by what it answers. Two caches that are alike in this
way at one time answer alike from then on, whatever is written to both, and no matter when each of them
drops what has become stale.
-/
namespace LogCatalog.Cache
variable {α : Type}

/-- What is left of a cache when all stale entries are dropped. -/
def fresh (c : Cache α) (now : Nat) : Cache α := (c.dropStale now).2

variable {c c' : Cache α} {now : Nat}

theorem getElem?_fresh (c : Cache α) (now : Nat) (k : Key) :
    (c.fresh now).entries[k]? = c.entries[k]?.filter (·.isFreshAt c.lifetime now) :=
  c.getElem?_dropStale now k

theorem fresh_eq_iff : c.fresh now = c'.fresh now ↔
    c.lifetime = c'.lifetime ∧ c.epoch = c'.epoch ∧
      ∀ k : Key, c.entries[k]?.filter (·.isFreshAt c.lifetime now) =
        c'.entries[k]?.filter (·.isFreshAt c'.lifetime now) := by
  simp only [← getElem?_fresh]
  constructor
  · intro h
    have hlifetime : (c.fresh now).lifetime = (c'.fresh now).lifetime := by rw [h]
    have hepoch : (c.fresh now).epoch = (c'.fresh now).epoch := by rw [h]
    exact ⟨hlifetime, hepoch, fun k => by rw [h]⟩
  · rintro ⟨hlifetime, hepoch, hentries⟩
    exact eq_of_getElem? hlifetime hepoch hentries

theorem lifetime_eq (h : c.fresh now = c'.fresh now) : c.lifetime = c'.lifetime := (fresh_eq_iff.1 h).1

theorem epoch_eq (h : c.fresh now = c'.fresh now) : c.epoch = c'.epoch := (fresh_eq_iff.1 h).2.1

/-- A lookup finds what is fresh. -/
theorem find?_eq_filter (c : Cache α) (now : Nat) (k : Key) :
    c.find? now k = (c.entries[k]?.filter (·.isFreshAt c.lifetime now)).map Entry.value := by
  unfold find?
  cases c.entries[k]? with
  | none => rfl
  | some e => cases hf : e.isFreshAt c.lifetime now <;> simp [hf]

/-- A lookup that finds nothing leaves nothing under its key. -/
theorem getElem?_get_of_find?_eq_none {k j : Key} (h : c.find? now k = none) :
    (c.get now k).2.entries[j]? = if k = j then none else c.entries[j]? := by
  rw [find?_eq_filter, Option.map_eq_none_iff] at h
  rw [getElem?_get]
  by_cases hj : k = j
  · subst hj
    rw [if_pos rfl, if_pos rfl, h]
  · rw [if_neg hj, if_neg hj]

/-- A lookup that finds something leaves the cache as it is. -/
theorem get_snd_of_find?_eq_some {k : Key} {value : α} (h : c.find? now k = some value) :
    (c.get now k).2 = c := by
  apply eq_of_getElem? (get_lifetime c now k) (get_epoch c now k)
  intro j
  rw [find?_eq_filter, Option.map_eq_some_iff] at h
  obtain ⟨e, he, -⟩ := h
  rw [getElem?_get]
  split
  · next hj =>
    subst hj
    rw [he, (Option.filter_eq_some_iff.1 he).1]
  · rfl

theorem find?_eq (h : c.fresh now = c'.fresh now) (k : Key) : c.find? now k = c'.find? now k := by
  rw [find?_eq_filter, find?_eq_filter, (fresh_eq_iff.1 h).2.2]

theorem fresh_get (c : Cache α) (now : Nat) (k : Key) : (c.get now k).2.fresh now = c.fresh now := by
  refine fresh_eq_iff.2 ⟨get_lifetime c now k, get_epoch c now k, fun j => ?_⟩
  rw [get_lifetime, getElem?_get]
  split
  · rw [Option.filter_filter]
    simp only [Bool.and_self]
  · rfl

theorem fresh_dropStale (c : Cache α) (now : Nat) : (c.dropStale now).2.fresh now = c.fresh now := by
  refine fresh_eq_iff.2 ⟨rfl, rfl, fun k => ?_⟩
  have hl : (c.dropStale now).2.lifetime = c.lifetime := rfl
  rw [hl, getElem?_dropStale, Option.filter_filter]
  simp only [Bool.and_self]

/-- What is alike now is alike later. -/
theorem fresh_later (h : c.fresh now = c'.fresh now) {later : Nat} (hle : now ≤ later) :
    c.fresh later = c'.fresh later := by
  obtain ⟨hlifetime, hepoch, hentries⟩ := fresh_eq_iff.1 h
  refine fresh_eq_iff.2 ⟨hlifetime, hepoch, fun k => ?_⟩
  -- what will be fresh later is fresh now
  have hsub (d : Cache α) : d.entries[k]?.filter (·.isFreshAt d.lifetime later) =
      (d.entries[k]?.filter (·.isFreshAt d.lifetime now)).filter (·.isFreshAt d.lifetime later) := by
    rw [Option.filter_filter]
    congr 1
    funext e
    rw [Bool.eq_iff_iff, Bool.and_eq_true]
    exact ⟨fun hf => ⟨Entry.isFreshAt_of_le hle hf, hf⟩, And.right⟩
  rw [hsub c, hsub c', hentries, hlifetime]

theorem fresh_insert (h : c.fresh now = c'.fresh now) (k : Key) (value : α) :
    (c.insert now k value).fresh now = (c'.insert now k value).fresh now := by
  obtain ⟨hlifetime, hepoch, hentries⟩ := fresh_eq_iff.1 h
  refine fresh_eq_iff.2 ⟨hlifetime, hepoch, fun j => ?_⟩
  have hl (d : Cache α) : (d.insert now k value).lifetime = d.lifetime := rfl
  rw [hl, hl, getElem?_insert, getElem?_insert]
  split
  · rw [hlifetime]
  · exact hentries j

theorem fresh_get_congr (h : c.fresh now = c'.fresh now) (k : Key) :
    (c.get now k).2.fresh now = (c'.get now k).2.fresh now := by
  rw [fresh_get, fresh_get, h]

theorem clear_eq (h : c.fresh now = c'.fresh now) : c.clear = c'.clear := by
  rw [clear, clear, lifetime_eq h, epoch_eq h]

/-- A listing fares alike in both caches. -/
theorem fresh_fill {c c' : Cache NameSet} (h : c.fresh now = c'.fresh now) (epoch : UInt64)
    (host : String) (rows : List (String × List String)) (entries : Nat) :
    (c.fill epoch now host rows entries).1 = (c'.fill epoch now host rows entries).1 ∧
      (c.fill epoch now host rows entries).2.fresh now =
        (c'.fill epoch now host rows entries).2.fresh now := by
  induction rows generalizing c c' entries with
  | nil => exact ⟨rfl, h⟩
  | cons row rows ih =>
    have hepoch := epoch_eq h
    by_cases hc : c.epoch = epoch
    · rw [fill_cons_of_epoch_eq hc, fill_cons_of_epoch_eq (hepoch ▸ hc)]
      exact ih (fresh_insert h _ _) _
    · rw [fill_of_epoch_ne hc (List.cons_ne_nil _ _),
        fill_of_epoch_ne (hepoch ▸ hc) (List.cons_ne_nil _ _)]
      exact ⟨rfl, h⟩

end LogCatalog.Cache
