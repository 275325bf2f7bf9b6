import Mathlib.Data.List.Induction
import Mathlib.Data.String.Basic
import LogCatalog.Json.Basic

/-!
# The canonical form of objects

The members of an object in canonical form stand in the code-point order of their keys, each key once with
the last value that it was given. There is only one such list for what the keys were given.
-/
namespace LogCatalog.Json

namespace Members

/-- The keys increase strictly. -/
def Increasing (ms : Members) : Prop := ms.Pairwise fun m n => m.1 < n.1

variable {ms ns : Members} {k j : String} {v : Json}

theorem lookup_cons (k j : String) (v : Json) (ms : Members) :
    List.lookup j ((k, v) :: ms) = if j = k then some v else List.lookup j ms := by
  by_cases h : j = k
  · subst h
    simp
  · rw [List.lookup_cons, beq_eq_false_iff_ne.2 h, if_neg h]

/-- A member that is inserted stands for all that had its key. -/
theorem lookup_insert (k j : String) (v : Json) (ms : Members) :
    List.lookup j (insert k v ms) = if j = k then some v else List.lookup j ms := by
  induction ms with
  | nil => exact lookup_cons k j v []
  | cons m ms ih =>
    obtain ⟨k', v'⟩ := m
    rw [insert]
    split
    · exact lookup_cons k j v _
    · split
      · next hk =>
        subst hk
        rw [lookup_cons, lookup_cons]
        split <;> rfl
      · next hk =>
        rw [lookup_cons, lookup_cons, ih]
        by_cases h : j = k'
        · subst h
          rw [if_pos rfl, if_pos rfl, if_neg (Ne.symm hk)]
        · rw [if_neg h, if_neg h]

theorem mem_insert {m : String × Json} (h : m ∈ insert k v ms) : m = (k, v) ∨ m ∈ ms := by
  induction ms with
  | nil => exact .inl (List.mem_singleton.1 h)
  | cons n ms ih =>
    rw [insert] at h
    split at h
    · exact List.mem_cons.1 h
    · split at h
      · rcases List.mem_cons.1 h with h | h
        · exact .inl h
        · exact .inr (List.mem_cons_of_mem _ h)
      · rcases List.mem_cons.1 h with h | h
        · exact .inr (h ▸ List.mem_cons_self)
        · exact (ih h).imp id (List.mem_cons_of_mem _)

theorem Increasing.insert (h : ms.Increasing) (k : String) (v : Json) :
    (Members.insert k v ms).Increasing := by
  induction ms with
  | nil => exact List.pairwise_singleton _ _
  | cons m ms ih =>
    obtain ⟨hhead, htail⟩ := List.pairwise_cons.1 h
    rw [Members.insert]
    split
    · next hlt =>
      refine List.pairwise_cons.2 ⟨fun n hn => ?_, h⟩
      rcases List.mem_cons.1 hn with rfl | hn
      · exact hlt
      · exact lt_trans hlt (hhead n hn)
    · next hlt =>
      split
      · next heq =>
        subst heq
        exact List.pairwise_cons.2 ⟨hhead, htail⟩
      · next hne =>
        refine List.pairwise_cons.2 ⟨fun n hn => ?_, ih htail⟩
        rcases mem_insert hn with rfl | hn
        · exact lt_of_le_of_ne (not_lt.1 hlt) (Ne.symm hne)
        · exact hhead n hn

theorem canonical_concat (ms : Members) (k : String) (v : Json) :
    (ms ++ [(k, v)]).canonical = insert k v ms.canonical := by
  rw [canonical, List.foldl_append]
  rfl

theorem increasing_canonical (ms : Members) : ms.canonical.Increasing := by
  induction ms using List.reverseRecOn with
  | nil => exact List.Pairwise.nil
  | append_singleton ms m ih =>
    rw [canonical_concat]
    exact ih.insert m.1 m.2

/-- Of several members with one key the last one stays. -/
theorem lookup_canonical (ms : Members) (j : String) :
    List.lookup j ms.canonical = List.lookup j ms.reverse := by
  induction ms using List.reverseRecOn with
  | nil => rfl
  | append_singleton ms m ih =>
    rw [canonical_concat, lookup_insert, ih, List.reverse_concat, lookup_cons]

/-- Among members with distinct keys, a member is what its key leads to. -/
theorem lookup_eq_some_iff_mem (distinct : (ms.map Prod.fst).Nodup) :
    List.lookup k ms = some v ↔ (k, v) ∈ ms := by
  induction ms with
  | nil => simp
  | cons m ms ih =>
    obtain ⟨j, w⟩ := m
    rw [List.map_cons, List.nodup_cons] at distinct
    rw [lookup_cons, List.mem_cons, Prod.mk.injEq]
    by_cases hk : k = j
    · subst hk
      have hnot : (k, v) ∉ ms := fun hm => distinct.1 (List.mem_map.2 ⟨(k, v), hm, rfl⟩)
      simp [hnot, eq_comm]
    · simp [hk, ih distinct.2]

theorem lookup_eq_none_of_lt (h : ∀ m ∈ ms, k < m.1) : List.lookup k ms = none := by
  rw [List.lookup_eq_none_iff]
  intro m hm
  rw [bne_iff_ne]
  exact ne_of_lt (h m hm)

/-- An object does not begin with a smaller key than another that gives every key the same value. -/
theorem Increasing.not_head_lt {w : Json} (h : Increasing ((j, w) :: ns))
    (e : ∀ i, List.lookup i ((k, v) :: ms) = List.lookup i ((j, w) :: ns)) : ¬k < j := by
  intro hlt
  have hnone : List.lookup k ((j, w) :: ns) = none := by
    apply lookup_eq_none_of_lt
    intro m hm
    rcases List.mem_cons.1 hm with rfl | hm
    · exact hlt
    · exact lt_trans hlt ((List.pairwise_cons.1 h).1 m hm)
  rw [← e, lookup_cons, if_pos rfl] at hnone
  exact nomatch hnone

/-- Two objects in canonical form that give every key the same value are the same. -/
theorem Increasing.ext (h : ms.Increasing) (h' : ns.Increasing)
    (e : ∀ j, List.lookup j ms = List.lookup j ns) : ms = ns := by
  induction ms generalizing ns with
  | nil =>
    cases ns with
    | nil => rfl
    | cons n ns =>
      have hn := e n.1
      rw [lookup_cons, if_pos rfl] at hn
      exact nomatch hn
  | cons m ms ih =>
    cases ns with
    | nil =>
      have hm := e m.1
      rw [lookup_cons, if_pos rfl] at hm
      exact nomatch hm
    | cons n ns =>
      obtain ⟨k, v⟩ := m
      obtain ⟨j, w⟩ := n
      have hle : k ≤ j := not_lt.1 (h.not_head_lt fun i => (e i).symm)
      have hge : j ≤ k := not_lt.1 (h'.not_head_lt e)
      obtain rfl := le_antisymm hle hge
      obtain ⟨hms, hrest⟩ := List.pairwise_cons.1 h
      obtain ⟨hns, hrest'⟩ := List.pairwise_cons.1 h'
      have hv := e k
      rw [lookup_cons, if_pos rfl, lookup_cons, if_pos rfl] at hv
      obtain rfl := Option.some.inj hv
      have htail : ms = ns := ih hrest hrest' fun i => by
        have hi := e i
        rw [lookup_cons, lookup_cons] at hi
        by_cases hk : i = k
        · subst hk
          rw [lookup_eq_none_of_lt hms, lookup_eq_none_of_lt hns]
        · rwa [if_neg hk, if_neg hk] at hi
      rw [htail]

end Members

theorem canonicalMembers_eq_map (ms : Members) :
    canonicalMembers ms = ms.map fun m => (m.1, m.2.canonical) := by
  induction ms with
  | nil => rfl
  | cons m ms ih => rw [canonicalMembers, ih, List.map_cons]

/-- The entries of an object that a text writes like this: in the order of their keys, each with the last
value under its key. -/
structure Entries (ms entries : Members) : Prop where
  increasing : entries.Increasing
  lookup (k : String) : List.lookup k entries = (List.lookup k ms.reverse).map canonical

theorem entries_canonical (ms : Members) : Entries ms (canonicalMembers ms).canonical where
  increasing := Members.increasing_canonical _
  lookup k := by
    rw [Members.lookup_canonical, canonicalMembers_eq_map, ← List.map_reverse]
    generalize ms.reverse = rs
    induction rs with
    | nil => rfl
    | cons m rs ih =>
      rw [List.map_cons, Members.lookup_cons, Members.lookup_cons, ih]
      split <;> rfl

/-- What a text writes determines the entries. -/
theorem entries_iff {ms entries : Members} :
    Entries ms entries ↔ (canonicalMembers ms).canonical = entries := by
  constructor
  · intro h
    have hc := entries_canonical ms
    exact hc.increasing.ext h.increasing fun k => (hc.lookup k).trans (h.lookup k).symm
  · rintro rfl
    exact entries_canonical ms

/-- If no key is written twice, the entries are the members with their values in canonical form. -/
theorem Entries.mem_iff {ms entries : Members} (h : Entries ms entries) (distinct : (ms.map Prod.fst).Nodup)
    {k : String} {v : Json} : (k, v) ∈ entries ↔ ∃ w, (k, w) ∈ ms ∧ w.canonical = v := by
  have hentries : (entries.map Prod.fst).Nodup := List.pairwise_map.2 (h.increasing.imp ne_of_lt)
  have hreverse : (ms.reverse.map Prod.fst).Nodup := by
    rw [List.map_reverse]
    exact List.pairwise_reverse.2 (distinct.imp Ne.symm)
  rw [← Members.lookup_eq_some_iff_mem hentries, h.lookup, Option.map_eq_some_iff]
  simp only [Members.lookup_eq_some_iff_mem hreverse, List.mem_reverse]

end LogCatalog.Json
