import LogCatalog.Settings.Assignment

/-!
# Fields and their ranges

A field has one name and takes the natural numbers of one range, which its default is in. A field that is
set holds the number that it took, and the other fields hold what they held.
-/
namespace LogCatalog

theorem Json.natural?_eq_some_iff {value : Json} {n : UInt64} :
    value.natural? = some n ↔ value = .natural n := by
  cases value <;> simp [natural?]

theorem Json.canonical_eq_natural_iff {value : Json} {n : UInt64} :
    value.canonical = .natural n ↔ value = .natural n := by
  cases value <;> simp [canonical]

namespace Field

/-- The numbers that a field takes. -/
def InRange (f : Field) (n : UInt64) : Prop :=
  match f with
  | .cacheHours => n.toNat < UInt32.size
  | .fetchTimeoutMs => 0 < n.toNat
  | .fetchWorkers => n.toNat ≤ 256
  | .sweepSeconds => True

instance (f : Field) (n : UInt64) : Decidable (f.InRange n) :=
  match f with
  | .cacheHours => inferInstanceAs (Decidable (n.toNat < UInt32.size))
  | .fetchTimeoutMs => inferInstanceAs (Decidable (0 < n.toNat))
  | .fetchWorkers => inferInstanceAs (Decidable (n.toNat ≤ 256))
  | .sweepSeconds => inferInstanceAs (Decidable True)

variable {f : Field} {n : UInt64} {value : Json}

theorem ofName?_eq_some_iff {name : String} : ofName? name = some f ↔ name = f.name := by
  constructor
  · intro h
    have hf := List.find?_some h
    exact (beq_iff_eq.1 hf).symm
  · rintro rfl
    cases f <;> rfl

/-- A field takes a value that is a natural number in its range, and no other. -/
theorem accept_eq_ok_iff : f.accept value = .ok n ↔ value = .natural n ∧ f.InRange n := by
  cases hv : value.natural? with
  | none =>
    have hne : value ≠ .natural n := by
      rintro rfl
      exact nomatch hv
    simp [accept, hv, hne]
  | some m =>
    rw [Json.natural?_eq_some_iff] at hv
    subst hv
    have hzero : m = 0 ↔ ¬0 < m.toNat := by
      rw [Nat.not_lt, Nat.le_zero, ← UInt64.toNat_inj]
      rfl
    have hworkers : m ≤ Settings.maxWorkers ↔ m.toNat ≤ 256 := UInt64.le_iff_toNat_le
    cases f <;> simp only [accept, Json.natural?, InRange] <;> grind

theorem inRange_default (f : Field) : f.InRange (({} : Settings).get f) := by
  cases f <;> decide

end Field

namespace Settings

variable {f g : Field} {n : UInt64}

theorem get_set (s : Settings) (h : f.InRange n) : (s.set f n).get f = n := by
  cases f with
  | cacheHours =>
    apply UInt64.toNat_inj.1
    change n.toUInt32.toUInt64.toNat = n.toNat
    rw [UInt32.toNat_toUInt64, UInt64.toNat_toUInt32]
    exact Nat.mod_eq_of_lt h
  | fetchTimeoutMs | fetchWorkers | sweepSeconds => rfl

theorem get_set_of_ne (s : Settings) (h : g ≠ f) (n : UInt64) : (s.set f n).get g = s.get g := by
  cases f <;> cases g <;> first | rfl | exact absurd rfl h

end Settings
end LogCatalog
