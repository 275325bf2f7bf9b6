import LogCatalog.Registry

/-!
# What the registry rules and keeps

A ruling is decided by the failure count of the component first and by the marker of the key second.
Markers and failure counts change one at a time and never each other.
-/
namespace LogCatalog.Registry

variable (r : Registry) (component : String) (k : Key)

theorem isMarked_iff {r : Registry} {k : Key} : r.isMarked k ↔ k ∈ r.marks :=
  Std.ExtTreeSet.contains_iff_mem

theorem mem_markedKeys {r : Registry} {k : Key} : k ∈ r.markedKeys ↔ r.isMarked k := by
  rw [isMarked_iff, markedKeys, Std.ExtTreeSet.mem_toList]

theorem nodup_markedKeys : r.markedKeys.Nodup := by
  have h := Std.ExtTreeSet.distinct_toList (t := r.marks)
  exact h.imp fun hne e => hne (by simp [e])

theorem markedKeys_congr {r r' : Registry} (h : ∀ k, r.isMarked k ↔ r'.isMarked k) :
    r.markedKeys = r'.markedKeys := by
  have hmarks : r.marks = r'.marks := by
    ext k
    rw [← isMarked_iff, ← isMarked_iff, h]
  rw [markedKeys, hmarks, markedKeys]

theorem isBarred_iff {r : Registry} {component : String} :
    r.isBarred component ↔ threshold ≤ r.failuresOf component := by
  simp [isBarred]

theorem request_of_barred {r : Registry} {component : String} (h : r.isBarred component) :
    r.request component k = (.barred, r) := by
  simp [request, h]

theorem request_of_marked {r : Registry} {component : String} {k : Key} (hb : ¬r.isBarred component)
    (hm : r.isMarked k) : r.request component k = (.underWay, r) := by
  simp [request, hb, hm]

theorem request_of_admitted {r : Registry} {component : String} {k : Key}
    (hb : ¬r.isBarred component) (hm : ¬r.isMarked k) :
    r.request component k = (.admitted, { r with marks := r.marks.insert k }) := by
  simp [request, hb, hm]

theorem isMarked_insert {r : Registry} {k j : Key} :
    ({ r with marks := r.marks.insert k } : Registry).isMarked j ↔ k = j ∨ r.isMarked j := by
  simp [isMarked_iff]

theorem isMarked_release {r : Registry} {k j : Key} :
    (r.release k).isMarked j ↔ k ≠ j ∧ r.isMarked j := by
  simp [isMarked_iff, release]

/-- A marker that was taken and given back leaves no trace. -/
theorem release_insert {r : Registry} {k : Key} (h : ¬r.isMarked k) :
    ({ r with marks := r.marks.insert k } : Registry).release k = r := by
  have hm : (r.marks.insert k).erase k = r.marks := by
    ext j
    rw [Std.ExtTreeSet.mem_erase, Std.ExtTreeSet.mem_insert]
    constructor
    · rintro ⟨hne, e | hj⟩
      · exact absurd e hne
      · exact hj
    · intro hj
      refine ⟨fun e => h ?_, .inr hj⟩
      rwa [isMarked_iff, Std.LawfulEqCmp.eq_of_compare e]
  rw [release, hm]

theorem failuresOf_release : (r.release k).failuresOf component = r.failuresOf component := rfl

theorem isMarked_foldl_release {r : Registry} {ks : List Key} {j : Key} :
    (ks.foldl release r).isMarked j ↔ j ∉ ks ∧ r.isMarked j := by
  induction ks generalizing r with
  | nil => simp
  | cons k ks ih =>
    rw [List.foldl_cons, ih, isMarked_release, List.mem_cons, not_or, and_left_comm, and_assoc, ne_comm]

theorem failuresOf_foldl_release (ks : List Key) :
    (ks.foldl release r).failuresOf component = r.failuresOf component := by
  induction ks generalizing r with
  | nil => rfl
  | cons k ks ih => exact ih (r.release k)

theorem failuresOf_addFailure (other : String) :
    (r.addFailure component).failuresOf other =
      if component = other then min (r.failuresOf component + 1) maxFailures
      else r.failuresOf other := by
  simp only [failuresOf, addFailure, Std.ExtTreeMap.getElem?_insert]
  by_cases h : component = other <;> simp [h]

end LogCatalog.Registry
