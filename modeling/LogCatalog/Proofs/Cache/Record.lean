import LogCatalog.Cache
import Mathlib.Data.Finset.Card

/-!
# What a cache shows

A record keeps the last entry of every key and never drops one. A cache shows a record when it holds
nothing but recorded entries, and all of them that are fresh. Lookups and sweeps keep this, and a
lookup then finds exactly the fresh entries of the record: which of the others are held does not
matter.
-/
namespace LogCatalog
variable {α : Type}

abbrev Record (α : Type) := Key → Option (Entry α)

theorem Entry.isFreshAt_iff {e : Entry α} {lifetime now : Nat} :
    e.isFreshAt lifetime now ↔ now - e.writtenAt < lifetime := by
  simp [isFreshAt]

/-- An entry that is fresh was fresh before. -/
theorem Entry.isFreshAt_of_le {e : Entry α} {lifetime now later : Nat} (h : now ≤ later)
    (hf : e.isFreshAt lifetime later) : e.isFreshAt lifetime now := by
  rw [isFreshAt_iff] at *
  omega

namespace Cache

/-- The value in the record, as long as it is fresh. -/
def freshValue (r : Record α) (lifetime now : Nat) (k : Key) : Option α :=
  match r k with
  | some e => if e.isFreshAt lifetime now then some e.value else none
  | none => none

theorem freshValue_eq_some_iff {r : Record α} {lifetime now : Nat} {k : Key} {value : α} :
    freshValue r lifetime now k = some value ↔
      ∃ time, r k = some ⟨value, time⟩ ∧ now - time < lifetime := by
  unfold freshValue
  cases r k with
  | none => simp
  | some e =>
    obtain ⟨v, time⟩ := e
    by_cases hf : now - time < lifetime <;> simp [Entry.isFreshAt, hf]

structure Shows (c : Cache α) (now : Nat) (r : Record α) : Prop where
  recorded : ∀ k e, c.entries[k]? = some e → r k = some e
  fresh : ∀ k e, r k = some e → e.isFreshAt c.lifetime now → c.entries[k]? = some e

variable {c : Cache α} {now : Nat} {r : Record α}

@[simp] theorem get_fst (c : Cache α) (now : Nat) (k : Key) : (c.get now k).1 = c.find? now k := by
  unfold get find?
  cases c.entries[k]? with
  | none => rfl
  | some e => cases h : e.isFreshAt c.lifetime now <;> simp [h]

@[simp] theorem get_lifetime (c : Cache α) (now : Nat) (k : Key) :
    (c.get now k).2.lifetime = c.lifetime := by
  unfold get
  split
  · split <;> rfl
  · rfl

@[simp] theorem get_epoch (c : Cache α) (now : Nat) (k : Key) : (c.get now k).2.epoch = c.epoch := by
  unfold get
  split
  · split <;> rfl
  · rfl

/-- A lookup drops at most the entry of its key, and that one only when it is stale. -/
theorem getElem?_get (c : Cache α) (now : Nat) (k j : Key) :
    (c.get now k).2.entries[j]? =
      if k = j then c.entries[j]?.filter (·.isFreshAt c.lifetime now) else c.entries[j]? := by
  unfold get
  by_cases hj : k = j
  · subst hj
    cases he : c.entries[k]? with
    | none => simp [he]
    | some e => cases h : e.isFreshAt c.lifetime now <;> simp [h, he, Option.filter]
  · cases he : c.entries[k]? with
    | none => simp [hj]
    | some e =>
      cases h : e.isFreshAt c.lifetime now <;>
        simp [h, hj, Std.ExtTreeMap.getElem?_erase]

/-- A lookup changes nothing that lookups at that time find. -/
theorem find?_get (c : Cache α) (now : Nat) (k j : Key) : (c.get now k).2.find? now j = c.find? now j := by
  rw [find?, find?, getElem?_get, get_lifetime]
  by_cases hj : k = j
  · rw [if_pos hj]
    cases c.entries[j]? with
    | none => rfl
    | some e => cases h : e.isFreshAt c.lifetime now <;> simp [h, Option.filter]
  · rw [if_neg hj]

theorem getElem?_dropStale (c : Cache α) (now : Nat) (k : Key) :
    (c.dropStale now).2.entries[k]? = c.entries[k]?.filter (·.isFreshAt c.lifetime now) :=
  Std.ExtTreeMap.getElem?_filter'

theorem size_dropStale (c : Cache α) (now : Nat) :
    (c.dropStale now).1 + (c.dropStale now).2.size = c.size :=
  Nat.sub_add_cancel Std.ExtTreeMap.size_filter_le_size

/-- The size counts the keys that have an entry, each of them once. -/
theorem exists_size_eq_card (c : Cache α) :
    ∃ keys : Finset Key, c.size = keys.card ∧ ∀ k, k ∈ keys ↔ ∃ e, c.entries[k]? = some e := by
  refine ⟨⟨c.entries.keys, Std.ExtTreeMap.nodup_keys⟩, Std.ExtTreeMap.length_keys.symm, fun k => ?_⟩
  rw [← Option.isSome_iff_exists, Std.ExtTreeMap.isSome_getElem?_iff_mem]
  exact Std.ExtTreeMap.mem_keys

theorem getElem?_insert (c : Cache α) (now : Nat) (k j : Key) (value : α) :
    (c.insert now k value).entries[j]? = if k = j then some ⟨value, now⟩ else c.entries[j]? := by
  simp [insert, Std.ExtTreeMap.getElem?_insert]

/-- Lifetime, epoch and the entry of every key determine a cache. -/
theorem eq_of_getElem? {c c' : Cache α} (hlifetime : c.lifetime = c'.lifetime)
    (hepoch : c.epoch = c'.epoch) (hentries : ∀ k : Key, c.entries[k]? = c'.entries[k]?) : c = c' := by
  have hmap : c.entries = c'.entries := Std.ExtTreeMap.ext_getElem? fun {k} => hentries k
  exact (mk.injEq _ _ _ _ _ _).mpr ⟨hlifetime, hepoch, hmap⟩

theorem shows_nothing {lifetime : Nat} {epoch : UInt64} :
    Shows (α := α) { lifetime, epoch } now fun _ => none :=
  ⟨fun k e h => by simp at h, fun _ _ h => nomatch h⟩

/-- What a lookup finds depends on the record alone. -/
theorem Shows.find?_eq (h : c.Shows now r) (k : Key) :
    c.find? now k = freshValue r c.lifetime now k := by
  unfold find? freshValue
  cases hc : c.entries[k]? with
  | some e => rw [h.recorded k e hc]
  | none =>
    cases hr : r k with
    | none => rfl
    | some e =>
      by_cases hf : e.isFreshAt c.lifetime now
      · have held := h.fresh k e hr hf
        rw [hc] at held
        exact nomatch held
      · simp [hf]

/-- The cache may drop what is stale. -/
theorem Shows.of_dropped {c' : Cache α} (h : c.Shows now r) (hl : c'.lifetime = c.lifetime)
    (hsub : ∀ (k : Key) (e : Entry α), c'.entries[k]? = some e → c.entries[k]? = some e)
    (hkept : ∀ (k : Key) (e : Entry α), c.entries[k]? = some e → e.isFreshAt c.lifetime now →
      c'.entries[k]? = some e) :
    c'.Shows now r where
  recorded k e he := h.recorded k e (hsub k e he)
  fresh k e hr hf := by
    rw [hl] at hf
    exact hkept k e (h.fresh k e hr hf) hf

theorem Shows.get (h : c.Shows now r) (k : Key) : (c.get now k).2.Shows now r := by
  apply h.of_dropped (get_lifetime c now k)
  · intro j e he
    rw [getElem?_get] at he
    split at he
    · exact (Option.filter_eq_some_iff.1 he).1
    · exact he
  · intro j e he hf
    rw [getElem?_get, he]
    split
    · simp [hf]
    · rfl

theorem Shows.dropStale (h : c.Shows now r) : (c.dropStale now).2.Shows now r := by
  have hl : (c.dropStale now).2.lifetime = c.lifetime := rfl
  apply h.of_dropped hl
  · intro k e he
    rw [getElem?_dropStale] at he
    exact (Option.filter_eq_some_iff.1 he).1
  · intro k e he hf
    rw [getElem?_dropStale, he]
    simp [hf]

/-- Entries that are written count from then on, in the cache and in the record. -/
theorem Shows.written {c' : Cache α} {w : Record α} (h : c.Shows now r)
    (hl : c'.lifetime = c.lifetime)
    (he : ∀ k : Key, c'.entries[k]? = (w k).or c.entries[k]?) :
    c'.Shows now fun k => (w k).or (r k) where
  recorded k e hk := by
    rw [he] at hk
    cases hw : w k with
    | some e' => simpa [hw] using hk
    | none => simpa [hw] using h.recorded k e (by simpa [hw] using hk)
  fresh k e hr hf := by
    rw [hl] at hf
    rw [he]
    cases hw : w k with
    | some e' => simpa [hw] using hr
    | none => simpa [hw] using h.fresh k e (by simpa [hw] using hr) hf

theorem Shows.later (h : c.Shows now r) {time : Nat} (ht : now ≤ time) : c.Shows time r :=
  ⟨h.recorded, fun k e hr hf => h.fresh k e hr (Entry.isFreshAt_of_le ht hf)⟩

end Cache
end LogCatalog
