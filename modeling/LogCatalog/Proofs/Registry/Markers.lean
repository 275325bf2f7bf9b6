import LogCatalog.Registry.Desk
import LogCatalog.Proofs.Registry.Rulings
import Mathlib.Data.List.Induction

/-!
# Markers at a desk

Whoever was admitted holds a marker until it is given back or replaced. A key is marked exactly as long as
somebody holds its marker, and nobody else gets one meanwhile. Giving a marker back only asks for its
key, so this rests on no key having two holders.
-/
namespace LogCatalog

theorem Key.compare_eq_lt_iff {a b : Key} : compare a b = .lt ↔ a.text < b.text :=
  compareOfLessAndEq_eq_lt

theorem Registry.increasing_markedKeys (r : Registry) :
    r.markedKeys.Pairwise fun j k => j.text < k.text := by
  apply Std.ExtTreeSet.ordered_toList.imp
  intro j k h
  exact Key.compare_eq_lt_iff.1 h

namespace Desk

def run (d : Desk) (commands : List Command) : Desk := commands.foldl (fun d c => (d.perform c).2.2) d

variable {d : Desk} {id other : Nat} {component : String} {j k : Key}

theorem run_append (d : Desk) (commands more : List Command) :
    d.run (commands ++ more) = (d.run commands).run more :=
  List.foldl_append

theorem run_concat (d : Desk) (commands : List Command) (c : Command) :
    d.run (commands ++ [c]) = ((d.run commands).perform c).2.2 := by
  rw [run_append]
  rfl

theorem performAll_append (d : Desk) (commands more : List Command) :
    d.performAll (commands ++ more) = d.performAll commands ++ (d.run commands).performAll more := by
  induction commands generalizing d with
  | nil => rfl
  | cons c commands ih => exact congrArg (List.cons _) (ih _)

/-- As long as the answer changes nothing, it is the answer to every request. -/
theorem requests_of_refused {r : Registry} {ruling : Ruling}
    (h : r.request component k = (ruling, r)) (n : Nat) :
    requests r component k n = (List.replicate n ruling, r) := by
  induction n with
  | zero => rfl
  | succ n ih => simp [requests, h, ih, List.replicate_succ]

/-- The first of a crowd is admitted and all others have to wait. -/
theorem requests_of_admitted {r : Registry} (hb : ¬r.isBarred component) (hm : ¬r.isMarked k) (n : Nat) :
    requests r component k (n + 1) =
      (.admitted :: List.replicate n .underWay, { r with marks := r.marks.insert k }) := by
  obtain ⟨taken, htaken⟩ : ∃ taken : Registry, taken = { r with marks := r.marks.insert k } :=
    ⟨_, rfl⟩
  have hbarred : ¬taken.isBarred component := by rwa [htaken]
  have hmarked : taken.isMarked k := by
    rw [htaken, Registry.isMarked_insert]
    exact .inl rfl
  have hothers := requests_of_refused (Registry.request_of_marked hbarred hmarked) n
  simp only [requests, Registry.request_of_admitted hb hm, ← htaken, hothers]

/-- When a crowd is gone, the desk is as it was before. -/
theorem crowd_snd (d : Desk) (component : String) (k : Key) (callers : Nat) :
    (d.crowd component k callers).2 = d := by
  by_cases hb : d.registry.isBarred component
  · simp [crowd, requests_of_refused (Registry.request_of_barred k hb)]
  by_cases hm : d.registry.isMarked k
  · simp [crowd, requests_of_refused (Registry.request_of_marked hb hm)]
  cases callers with
  | zero => simp [crowd, requests]
  | succ n => simp [crowd, requests_of_admitted hb hm, Registry.release_insert hm]

theorem marks_failTimes (r : Registry) (component : String) (times : Nat) :
    (failTimes r component times).2.2.marks = r.marks := by
  induction times generalizing r with
  | zero => rfl
  | succ n ih => exact ih (r.addFailure component)

/-- The desk after a marker for the key was left under the id. -/
def lend (d : Desk) (id : Nat) (k : Key) : Desk where
  registry := d.markers[id]?.elim { d.registry with marks := d.registry.marks.insert k }
    { d.registry with marks := d.registry.marks.insert k }.release
  markers := d.markers.insert id k

theorem ask_of_barred (h : d.registry.isBarred component) : d.ask id component k = (.barred, d) := by
  simp [ask, Registry.request_of_barred k h]

theorem ask_of_marked (hb : ¬d.registry.isBarred component) (hm : d.registry.isMarked k) :
    d.ask id component k = (.underWay, d) := by
  simp [ask, Registry.request_of_marked hb hm]

theorem ask_of_admitted (hb : ¬d.registry.isBarred component) (hm : ¬d.registry.isMarked k) :
    d.ask id component k = (.admitted, d.lend id k) := by
  rw [ask, Registry.request_of_admitted hb hm, lend]
  cases d.markers[id]? <;> rfl

/-- The component is looked at first and the key second. -/
theorem ask_fst (d : Desk) (id : Nat) (component : String) (k : Key) :
    (d.ask id component k).1 =
      if d.registry.isBarred component then .barred
      else if d.registry.isMarked k then .underWay else .admitted := by
  by_cases hb : d.registry.isBarred component
  · rw [ask_of_barred hb, if_pos hb]
  by_cases hm : d.registry.isMarked k
  · rw [ask_of_marked hb hm, if_neg hb, if_pos hm]
  · rw [ask_of_admitted hb hm, if_neg hb, if_neg hm]

/-- Who is not admitted leaves nothing behind. -/
theorem ask_snd (d : Desk) (id : Nat) (component : String) (k : Key) :
    (d.ask id component k).2 = if (d.ask id component k).1 = .admitted then d.lend id k else d := by
  by_cases hb : d.registry.isBarred component
  · simp [ask_of_barred hb]
  by_cases hm : d.registry.isMarked k
  · simp [ask_of_marked hb hm]
  · simp [ask_of_admitted hb hm]

theorem ask_eq_barred_iff :
    (d.ask id component k).1 = .barred ↔ Registry.threshold ≤ d.registry.failuresOf component := by
  rw [ask_fst, ← Registry.isBarred_iff]
  grind

theorem ask_eq_underWay_iff :
    (d.ask id component k).1 = .underWay ↔
      d.registry.failuresOf component < Registry.threshold ∧ d.registry.isMarked k := by
  rw [ask_fst, ← Nat.not_le, ← Registry.isBarred_iff]
  grind

theorem ask_eq_admitted_iff :
    (d.ask id component k).1 = .admitted ↔
      d.registry.failuresOf component < Registry.threshold ∧ ¬d.registry.isMarked k := by
  rw [ask_fst, ← Nat.not_le, ← Registry.isBarred_iff]
  grind

theorem release_of_none (h : d.markers[id]? = none) : d.release id = (false, d) := by
  simp [release, h]

theorem release_of_some (h : d.markers[id]? = some k) :
    d.release id = (true, { registry := d.registry.release k, markers := d.markers.erase id }) := by
  simp [release, h]

theorem failuresOf_lend (d : Desk) (id : Nat) (k : Key) (component : String) :
    (d.lend id k).registry.failuresOf component = d.registry.failuresOf component := by
  rw [lend]
  cases d.markers[id]? <;> rfl

theorem getElem?_lend (d : Desk) (id : Nat) (k : Key) (other : Nat) :
    (d.lend id k).markers[other]? = if id = other then some k else d.markers[other]? := by
  simp [lend, Std.ExtTreeMap.getElem?_insert]

/-- Marks and markers correspond one to one. -/
structure Matched (d : Desk) : Prop where
  marked : ∀ k, d.registry.isMarked k ↔ ∃ id : Nat, d.markers[id]? = some k
  single : ∀ (id other : Nat) (k : Key),
    d.markers[id]? = some k → d.markers[other]? = some k → id = other

theorem matched_new : Matched {} where
  marked k := by simp [Registry.isMarked]
  single id other k h := by simp at h

/-- A new marker marks its key, and frees that of the marker whose place it takes. -/
theorem Matched.isMarked_lend (h : Matched d) (hk : ¬d.registry.isMarked k) :
    (d.lend id k).registry.isMarked j ↔
      j = k ∨ d.registry.isMarked j ∧ d.markers[id]? ≠ some j := by
  rw [lend]
  cases hold : d.markers[id]? with
  | none =>
    rw [Option.elim, Registry.isMarked_insert, eq_comm]
    simp
  | some old =>
    have hne : old ≠ k := by
      rintro rfl
      exact hk ((h.marked old).2 ⟨id, hold⟩)
    simp only [Option.elim, Registry.isMarked_release, Registry.isMarked_insert]
    grind

theorem Matched.lend (h : Matched d) (hk : ¬d.registry.isMarked k) : Matched (d.lend id k) where
  marked j := by
    rw [h.isMarked_lend hk]
    constructor
    · rintro (rfl | ⟨hj, hne⟩)
      · exact ⟨id, by simp [getElem?_lend]⟩
      · obtain ⟨other, hother⟩ := (h.marked j).1 hj
        refine ⟨other, ?_⟩
        rwa [getElem?_lend, if_neg]
        rintro rfl
        exact hne hother
    · rintro ⟨other, hother⟩
      rw [getElem?_lend] at hother
      split at hother
      · exact .inl (Option.some.inj hother).symm
      · next hne =>
        exact .inr ⟨(h.marked j).2 ⟨other, hother⟩, fun hid => hne (h.single id other j hid hother)⟩
  single a b j ha hb := by
    -- whoever held the key before had it marked
    have hfree (c : Nat) (hc : d.markers[c]? = some k) : False := hk ((h.marked k).2 ⟨c, hc⟩)
    rw [getElem?_lend] at ha hb
    split at ha <;> split at hb
    · next ha' hb' => exact ha'.symm.trans hb'
    · exact (hfree b (by rw [hb, ha])).elim
    · exact (hfree a (by rw [ha, hb])).elim
    · exact h.single a b j ha hb

theorem isMarked_release (hk : d.markers[id]? = some k) :
    (d.release id).2.registry.isMarked j ↔ j ≠ k ∧ d.registry.isMarked j := by
  rw [release_of_some hk, Registry.isMarked_release, ne_comm]

theorem failuresOf_release (d : Desk) (id : Nat) (component : String) :
    (d.release id).2.registry.failuresOf component = d.registry.failuresOf component := by
  rw [release]
  cases d.markers[id]? <;> rfl

/-- The key can be asked for again at once. -/
theorem ask_of_released (hk : d.markers[id]? = some k)
    (hlow : d.registry.failuresOf component < Registry.threshold) :
    ((d.release id).2.ask other component k).1 = .admitted := by
  rw [ask_eq_admitted_iff, isMarked_release hk]
  constructor
  · rwa [failuresOf_release]
  · simp

theorem Matched.release (h : Matched d) (id : Nat) : Matched (d.release id).2 := by
  cases hk : d.markers[id]? with
  | none => rwa [release_of_none hk]
  | some k =>
    have hget (other : Nat) : (d.release id).2.markers[other]? =
        if id = other then none else d.markers[other]? := by
      simp [release_of_some hk, Std.ExtTreeMap.getElem?_erase]
    constructor
    · intro j
      rw [isMarked_release hk, h.marked]
      constructor
      · rintro ⟨hj, other, hother⟩
        refine ⟨other, ?_⟩
        rwa [hget, if_neg]
        rintro rfl
        exact hj (Option.some.inj (hother.symm.trans hk))
      · rintro ⟨other, hother⟩
        rw [hget] at hother
        split at hother
        · simp at hother
        · next hne =>
          refine ⟨?_, other, hother⟩
          rintro rfl
          exact hne (h.single id other j hk hother)
    · intro a b j ha hb
      rw [hget] at ha hb
      split at ha
      · simp at ha
      split at hb
      · simp at hb
      exact h.single a b j ha hb

/-- Only the keys that are marked and the markers that are held matter. -/
theorem Matched.congr {d' : Desk} (h : Matched d) (hmarks : d'.registry.marks = d.registry.marks)
    (hmarkers : d'.markers = d.markers) : Matched d' where
  marked k := by rw [hmarkers, ← h.marked, Registry.isMarked, hmarks, Registry.isMarked]
  single := by rw [hmarkers]; exact h.single

theorem Matched.ask (h : Matched d) (id : Nat) (component : String) (k : Key) :
    Matched (d.ask id component k).2 := by
  rw [ask_snd]
  split
  · next hadmitted => exact h.lend (ask_eq_admitted_iff.1 hadmitted).2
  · exact h

/-- One command. -/
theorem Matched.perform (h : Matched d) (c : Command) : Matched (d.perform c).2.2 := by
  cases c with
  | ask id component k => exact h.ask id component k
  | release id => exact h.release id
  | crowd component k callers =>
    have hcrowd : (d.perform (.crowd component k callers)).2.2 = d := crowd_snd d component k callers
    rwa [hcrowd]
  | fail component times => exact h.congr (marks_failTimes d.registry component times) rfl
  | failures | isMarked | threshold => exact h

theorem matched_run (commands : List Command) : Matched (({} : Desk).run commands) := by
  induction commands using List.reverseRecOn with
  | nil => exact matched_new
  | append_singleton commands c ih =>
    rw [run_concat]
    exact ih.perform c

/-- Whatever has been asked for and given back, keys and holders correspond one to one. -/
theorem markers_match (commands : List Command) :
    let d := ({} : Desk).run commands
    (∀ k, d.registry.isMarked k ↔ ∃ id : Nat, d.markers[id]? = some k) ∧
    (∀ (id other : Nat) (k : Key),
      d.markers[id]? = some k → d.markers[other]? = some k → id = other) ∧
    (∀ k, k ∈ d.registry.markedKeys ↔ ∃ id : Nat, d.markers[id]? = some k) ∧
    (d.registry.markedKeys.Pairwise fun j k => j.text < k.text) ∧
    (∀ (id : Nat) (component : String) (k : Key),
      ((d.ask id component k).1 = .barred ↔ 10 ≤ d.registry.failuresOf component) ∧
      ((d.ask id component k).1 = .underWay ↔
        d.registry.failuresOf component < 10 ∧ ∃ other : Nat, d.markers[other]? = some k) ∧
      ((d.ask id component k).1 = .admitted ↔
        d.registry.failuresOf component < 10 ∧ ¬∃ other : Nat, d.markers[other]? = some k) ∧
      ((d.ask id component k).1 ≠ .admitted → (d.ask id component k).2 = d) ∧
      ((d.ask id component k).1 = .admitted →
        (d.ask id component k).2.markers = d.markers.insert id k ∧
        (∀ j, (d.ask id component k).2.registry.isMarked j ↔
          j = k ∨ d.registry.isMarked j ∧ d.markers[id]? ≠ some j) ∧
        ∀ c, (d.ask id component k).2.registry.failuresOf c = d.registry.failuresOf c)) ∧
    (∀ (id : Nat), d.markers[id]? = none → (d.release id).2 = d) ∧
    ∀ (id : Nat) (k : Key), d.markers[id]? = some k →
      (d.release id).2.markers = d.markers.erase id ∧
      (∀ j, (d.release id).2.registry.isMarked j ↔ j ≠ k ∧ d.registry.isMarked j) ∧
      (∀ c, (d.release id).2.registry.failuresOf c = d.registry.failuresOf c) ∧
      ∀ (other : Nat) (component : String), d.registry.failuresOf component < 10 →
        ((d.release id).2.ask other component k).1 = .admitted := by
  intro d
  have h : Matched d := matched_run commands
  refine ⟨h.marked, h.single, ?_, d.registry.increasing_markedKeys, ?_, ?_, ?_⟩
  · intro k
    rw [Registry.mem_markedKeys, h.marked]
  · intro id component k
    rw [← h.marked]
    refine ⟨ask_eq_barred_iff, ask_eq_underWay_iff, ask_eq_admitted_iff, ?_, ?_⟩
    · intro hne
      rw [ask_snd, if_neg hne]
    · intro hadmitted
      have hfree := (ask_eq_admitted_iff.1 hadmitted).2
      rw [ask_snd, if_pos hadmitted]
      exact ⟨rfl, fun j => h.isMarked_lend hfree, failuresOf_lend d id k⟩
  · intro id hnone
    rw [release_of_none hnone]
  · intro id k hk
    refine ⟨by rw [release_of_some hk], fun j => isMarked_release hk, failuresOf_release d id, ?_⟩
    intro other component hlow
    exact ask_of_released hk hlow

end Desk
end LogCatalog
