import LogCatalog.Json.Reader
import Mathlib.Data.List.Basic
import Mathlib.Data.List.Induction
import Mathlib.Data.List.TakeWhile

/-!
# Texts of natural numbers

A text reads as a natural number exactly if it is the decimal numeral of a number below two to the 64th with
blanks around it. A numeral with a sign, a point or an exponent is not read as one, and neither is one with a
zero too many in front or one that is too large.
-/
namespace LogCatalog.Json

/-- The text is the decimal numeral of the number, with blanks around it. -/
def Writes (text : String) (n : Nat) : Prop :=
  ∃ before after, text = before ++ toString n ++ after ∧
    ∀ c ∈ before.toList ++ after.toList, c ∈ [' ', '\t', '\n', '\r']

namespace Numeral

/-- A row of digits, with a zero in front only if it is the only digit. -/
structure Plain (ds : List Char) : Prop where
  digits : ∀ c ∈ ds, isDigit c
  nonempty : ds ≠ []
  leading : ds.head? = some '0' → ds.length ≤ 1

/-- What cannot go on as a numeral. -/
def Ends (cs : List Char) : Prop := ∀ c ∈ cs.head?, ¬isDigit c ∧ c ≠ '.' ∧ c ≠ 'e' ∧ c ≠ 'E'

variable {c : Char} {ds cs rest : List Char} {m n : Nat} {value : Json} {minus : Bool}

theorem exists_digitChar (h : isDigit c) : ∃ d < 10, d.digitChar = c := by
  simp only [isDigit, Bool.and_eq_true, decide_eq_true_eq, Char.le_def, UInt32.le_iff_toNat_le] at h
  have hleast : 48 ≤ c.toNat := h.1
  have hgreatest : c.toNat ≤ 57 := h.2
  have hlt : c.toNat - 48 < 10 := by omega
  refine ⟨c.toNat - 48, hlt, Char.toNat_inj.1 ?_⟩
  rw [Nat.toNat_digitChar_of_lt_ten hlt]
  omega

theorem head?_toDigits_ne (h : 0 < n) : (Nat.toDigits 10 n).head? ≠ some '0' := by
  induction n using Nat.base_induction 10 (by decide) with
  | single n hn => simp [Nat.toDigits_of_lt_base hn, Nat.ne_of_gt h]
  | digit n d hd hn ih =>
    rw [← Nat.toDigits_append_toDigits (by decide) hn hd, List.head?_append_of_ne_nil _ Nat.toDigits_ne_nil]
    exact ih hn

theorem plain_toDigits (n : Nat) : Plain (Nat.toDigits 10 n) where
  digits _ hc := Nat.isDigit_of_mem_toDigits (by decide) (by decide) hc
  nonempty := Nat.toDigits_ne_nil
  leading hzero := by
    rcases Nat.eq_zero_or_pos n with rfl | hn
    · exact Nat.le_refl 1
    · exact absurd hzero (head?_toDigits_ne hn)

/-- A plain row of digits is the numeral of its number. -/
theorem Plain.toDigits_ofDigitChars (h : Plain ds) : Nat.toDigits 10 (Nat.ofDigitChars 10 ds 0) = ds := by
  induction ds using List.reverseRecOn with
  | nil => exact absurd rfl h.nonempty
  | append_singleton ds c ih =>
    obtain ⟨d, hd, rfl⟩ := exists_digitChar (h.digits c (by simp))
    rw [Nat.ofDigitChars_append, Nat.ofDigitChars_cons_digitChar_of_lt_ten hd, Nat.ofDigitChars_nil]
    by_cases hds : ds = []
    · subst hds
      simp [Nat.toDigits_of_lt_base hd]
    · have hhead : ds.head? ≠ some '0' := by
        intro hzero
        have hlength := h.leading (by rwa [List.head?_append_of_ne_nil _ hds])
        rw [List.length_append, List.length_singleton] at hlength
        exact hds (List.length_eq_zero_iff.1 (by omega))
      have hfront := ih ⟨fun c hc => h.digits c (List.mem_append_left _ hc), hds, fun e => absurd e hhead⟩
      have hpos : 0 < Nat.ofDigitChars 10 ds 0 := by
        rw [Nat.pos_iff_ne_zero]
        intro hzero
        rw [hzero, Nat.toDigits_zero] at hfront
        exact hhead (hfront ▸ rfl)
      rw [← Nat.toDigits_append_toDigits (by decide) hpos hd, hfront, Nat.toDigits_of_lt_base hd]

theorem le_ofDigitChars (s : Nat) (ds : List Char) : s ≤ Nat.ofDigitChars 10 ds s := by
  rw [Nat.ofDigitChars_eq_ofDigitChars_zero]
  exact Nat.le_trans (Nat.le_mul_of_pos_left s (Nat.pow_pos (by decide))) (Nat.le_add_right _ _)

theorem ofDigitChars_cons (c : Char) (ds : List Char) (s : Nat) :
    Nat.ofDigitChars 10 (c :: ds) s = Nat.ofDigitChars 10 ds (s * 10 + digitValue c) := by
  rw [Nat.ofDigitChars_cons, Nat.mul_comm, digitValue]

/-- A number that fits is taken in as a whole. -/
theorem absorb_of_lt {s : Nat} (h : Nat.ofDigitChars 10 ds s < Nat.pow 2 64) :
    absorb s ds = (Nat.ofDigitChars 10 ds s, ds.length) := by
  induction ds generalizing s with
  | nil => rfl
  | cons c ds ih =>
    rw [ofDigitChars_cons] at h ⊢
    have hnext : s * 10 + digitValue c < Nat.pow 2 64 := Nat.lt_of_le_of_lt (le_ofDigitChars _ _) h
    rw [absorb, if_pos hnext, ih h]
    rfl

/-- Of a number that does not fit, some digits are left over. -/
theorem absorb_snd_lt {s : Nat} (hs : s < Nat.pow 2 64) (h : ¬Nat.ofDigitChars 10 ds s < Nat.pow 2 64) :
    (absorb s ds).2 < ds.length := by
  induction ds generalizing s with
  | nil => exact absurd hs h
  | cons c ds ih =>
    rw [ofDigitChars_cons] at h
    rw [absorb]
    split
    · next hnext => exact Nat.succ_lt_succ (ih hnext h)
    · exact Nat.succ_pos _

/-- A numeral with an exponent is a float. -/
theorem exponent_ne_natural {n : UInt64} {significand : Nat} {start : Int} :
    exponent minus significand start cs ≠ some (.natural n, rest) := by
  simp only [exponent]
  split_ifs <;> simp

/-- A numeral that has to be scaled is a float. -/
theorem scaled_ne_natural {n : UInt64} {significand : Nat} {start : Int} :
    scaled minus significand start cs ≠ some (.natural n, rest) := by
  unfold scaled
  split
  · exact exponent_ne_natural
  · exact exponent_ne_natural
  · simp

/-- A numeral with a point is a float. -/
theorem fraction_ne_natural {n : UInt64} {significand : Nat} {start : Int} :
    fraction minus significand start cs ≠ some (.natural n, rest) := by
  simp only [fraction]
  split_ifs
  · exact nofun
  · exact scaled_ne_natural

theorem integer_eq_natural_iff {n : UInt64} :
    integer minus m = .natural n ↔ minus = false ∧ UInt64.ofNat m = n := by
  cases minus with
  | false => simp [integer]
  | true =>
    simp only [integer, not_true_eq_false, if_false]
    split <;> simp

/-- What is read as a natural number is its numeral. -/
theorem eq_of_unsigned {n : UInt64} (h : unsigned minus cs = some (.natural n, rest)) :
    minus = false ∧ cs = Nat.toDigits 10 n.toNat ++ rest := by
  simp only [unsigned] at h
  split at h
  · cases h
  · next hplain =>
    rw [not_or, not_and, Nat.not_lt] at hplain
    have plain : Plain (cs.takeWhile isDigit) :=
      ⟨fun c hc => List.mem_takeWhile_imp hc, fun e => hplain.1 (by rw [e]; rfl), hplain.2⟩
    split at h
    · exact absurd h fraction_ne_natural
    · split at h
      · next hwhole =>
        rw [Option.some.injEq, Prod.mk.injEq, integer_eq_natural_iff] at h
        obtain ⟨⟨hminus, hn⟩, hrest⟩ := h
        -- no digit is left over
        have hfits : Nat.ofDigitChars 10 (cs.takeWhile isDigit) 0 < Nat.pow 2 64 := by
          by_contra hlarge
          have hleft := absorb_snd_lt (by decide) hlarge
          have hcount := hwhole.1
          omega
        rw [absorb_of_lt hfits] at hn
        have hvalue : n.toNat = Nat.ofDigitChars 10 (cs.takeWhile isDigit) 0 := by
          rw [← hn]
          exact UInt64.toNat_ofNat_of_lt' hfits
        refine ⟨hminus, ?_⟩
        rw [hvalue, plain.toDigits_ofDigitChars, ← hrest, List.takeWhile_append_dropWhile]
      · exact absurd h scaled_ne_natural

theorem eq_of_read {n : UInt64} (h : read cs = some (.natural n, rest)) :
    cs = Nat.toDigits 10 n.toNat ++ rest := by
  unfold read at h
  split at h
  · exact nomatch (eq_of_unsigned h).1
  · exact (eq_of_unsigned h).2

theorem Plain.takeWhile_append (hd : Plain ds) (hr : Ends rest) : (ds ++ rest).takeWhile isDigit = ds := by
  have hrest : rest.takeWhile isDigit = [] := by
    cases rest with
    | nil => rfl
    | cons c rest => exact List.takeWhile_cons_of_neg (hr c rfl).1
  rw [List.takeWhile_append_of_pos hd.digits, hrest, List.append_nil]

theorem Plain.dropWhile_append (hd : Plain ds) (hr : Ends rest) : (ds ++ rest).dropWhile isDigit = rest := by
  rw [List.dropWhile_append_of_pos hd.digits]
  cases rest with
  | nil => rfl
  | cons c rest => exact List.dropWhile_cons_of_neg (hr c rfl).1

/-- The numeral of a natural number is read as this number, up to its end. -/
theorem unsigned_toDigits (n : UInt64) (hr : Ends rest) :
    unsigned false (Nat.toDigits 10 n.toNat ++ rest) = some (.natural n, rest) := by
  have hd := plain_toDigits n.toNat
  have hfits : Nat.ofDigitChars 10 (Nat.toDigits 10 n.toNat) 0 < Nat.pow 2 64 := by
    rw [Nat.ofDigitChars_ten_toDigits]
    exact n.toNat_lt
  have habsorb : absorb 0 (Nat.toDigits 10 n.toNat) = (n.toNat, (Nat.toDigits 10 n.toNat).length) := by
    rw [absorb_of_lt hfits, Nat.ofDigitChars_ten_toDigits]
  have hplain : ¬((Nat.toDigits 10 n.toNat).isEmpty ∨
      (Nat.toDigits 10 n.toNat).head? = some '0' ∧ (Nat.toDigits 10 n.toNat).length > 1) := by
    rw [not_or, not_and, Nat.not_lt, List.isEmpty_iff]
    exact ⟨hd.nonempty, hd.leading⟩
  have hpoint (r : List Char) : rest ≠ '.' :: r := by
    rintro rfl
    exact (hr '.' rfl).2.1 rfl
  have hend : rest.head? ≠ some 'e' ∧ rest.head? ≠ some 'E' :=
    ⟨fun e => (hr 'e' e).2.2.1 rfl, fun e => (hr 'E' e).2.2.2 rfl⟩
  simp only [unsigned, hd.takeWhile_append hr, hd.dropWhile_append hr, habsorb, if_neg hplain]
  rw [if_pos ⟨Int.sub_self _, hend⟩, integer_eq_natural_iff.2 ⟨rfl, UInt64.ofNat_toNat⟩]

/-- Only a numeral without a sign starts with a digit. -/
theorem read_of_isDigit (h : isDigit c) : read (c :: cs) = unsigned false (c :: cs) := by
  unfold read
  split
  · next heq =>
    cases heq
    exact absurd h (by decide)
  · rfl

theorem exists_cons_toDigits (n : Nat) : ∃ c ds, isDigit c ∧ Nat.toDigits 10 n = c :: ds := by
  obtain ⟨c, ds, h⟩ := List.exists_cons_of_ne_nil (plain_toDigits n).nonempty
  exact ⟨c, ds, (plain_toDigits n).digits c (h ▸ List.mem_cons_self), h⟩

end Numeral

variable {c : Char} {cs rest : List Char} {fuel depth m n : Nat} {k : UInt64} {text : String}

theorem isBlank_iff : isBlank c ↔ c ∈ [' ', '\t', '\n', '\r'] := by
  simp [isBlank, or_assoc]

/-- A blank ends a numeral. -/
theorem ends_of_isBlank (h : isBlank c) : ¬Numeral.isDigit c ∧ c ≠ '.' ∧ c ≠ 'e' ∧ c ≠ 'E' := by
  simp only [isBlank_iff, List.mem_cons, List.not_mem_nil, or_false] at h
  rcases h with rfl | rfl | rfl | rfl <;> decide

theorem ends_of_blank (h : ∀ c ∈ cs, isBlank c) : Numeral.Ends cs := fun c hc =>
  ends_of_isBlank (h c (List.mem_of_mem_head? hc))

/-- What starts with a digit is a numeral. -/
theorem value_of_isDigit (digit : Numeral.isDigit c) (start : skipBlank cs = c :: rest) :
    value (fuel + 1) depth cs = Numeral.unsigned false (c :: rest) := by
  unfold value
  split
  case h_7 => rw [start, Numeral.read_of_isDigit digit]
  all_goals
    next heq =>
      cases start.symm.trans heq
      exact absurd digit (by decide)

/-- A value that is a natural number is a numeral. -/
theorem read_of_value (h : value fuel depth cs = some (.natural k, rest)) :
    Numeral.read (skipBlank cs) = some (.natural k, rest) := by
  cases fuel with
  | zero => exact nomatch h
  | succ fuel =>
    unfold value at h
    split at h
    case h_7 => exact h
    case h_1 | h_2 | h_3 => cases h
    case h_4 => simp at h
    all_goals
      cases depth with
      | zero => cases h
      | succ depth =>
        simp only at h
        split at h
        · cases h
        · simp at h

theorem Writes.exists_skipBlank (h : Writes text n) :
    ∃ after, skipBlank text.toList = Nat.toDigits 10 n ++ after ∧ ∀ c ∈ after, isBlank c := by
  obtain ⟨before, after, rfl, blank⟩ := h
  have hbefore : ∀ c ∈ before.toList, isBlank c := fun c hc =>
    isBlank_iff.2 (blank c (List.mem_append_left _ hc))
  have hafter : ∀ c ∈ after.toList, isBlank c := fun c hc =>
    isBlank_iff.2 (blank c (List.mem_append_right _ hc))
  refine ⟨after.toList, ?_, hafter⟩
  obtain ⟨c, ds, digit, hds⟩ := Numeral.exists_cons_toDigits n
  have hstart : ¬isBlank c := fun hc => (ends_of_isBlank hc).1 digit
  rw [String.toList_append, String.toList_append, Nat.toString_eq_repr, Nat.toList_repr, List.append_assoc,
    skipBlank, List.dropWhile_append_of_pos hbefore, hds, List.cons_append,
    List.dropWhile_cons_of_neg hstart]

theorem Writes.unique (h : Writes text m) (h' : Writes text n) : m = n := by
  obtain ⟨after, hskip, blank⟩ := h.exists_skipBlank
  obtain ⟨after', hskip', blank'⟩ := h'.exists_skipBlank
  have hdigits := (Numeral.plain_toDigits m).takeWhile_append (ends_of_blank blank)
  rw [← hskip, hskip', (Numeral.plain_toDigits n).takeWhile_append (ends_of_blank blank')] at hdigits
  rw [← Nat.ofDigitChars_ten_toDigits (n := m), ← hdigits, Nat.ofDigitChars_ten_toDigits]

/-- A text reads as a natural number if and only if it writes this number. -/
theorem read?_eq_natural_iff : read? text = some (.natural k) ↔ Writes text k.toNat := by
  constructor
  · intro h
    simp only [read?, Option.bind_eq_bind, Option.bind_eq_some_iff] at h
    obtain ⟨⟨v, rest⟩, hvalue, h⟩ := h
    split at h
    · next hrest =>
      obtain rfl := Option.some.inj h
      have htext := Numeral.eq_of_read (read_of_value hvalue)
      rw [skipBlank, List.isEmpty_iff, List.dropWhile_eq_nil_iff] at hrest
      refine ⟨String.ofList (text.toList.takeWhile isBlank), String.ofList rest, ?_, fun c hc => ?_⟩
      · rw [← String.toList_inj, String.toList_append, String.toList_append, String.toList_ofList,
          String.toList_ofList, Nat.toString_eq_repr, Nat.toList_repr, List.append_assoc, ← htext, skipBlank,
          List.takeWhile_append_dropWhile]
      · rw [String.toList_ofList, String.toList_ofList, List.mem_append] at hc
        rcases hc with hc | hc
        · exact isBlank_iff.1 (List.mem_takeWhile_imp hc)
        · exact isBlank_iff.1 (hrest c hc)
    · cases h
  · intro h
    obtain ⟨after, hskip, blank⟩ := h.exists_skipBlank
    obtain ⟨c, ds, digit, hds⟩ := Numeral.exists_cons_toDigits k.toNat
    have hvalue (fuel : Nat) : value (fuel + 1) maxDepth text.toList = some (.natural k, after) := by
      rw [hds, List.cons_append] at hskip
      rw [value_of_isDigit digit hskip, ← List.cons_append, ← hds,
        Numeral.unsigned_toDigits k (ends_of_blank blank)]
    have hafter : skipBlank after = [] := List.dropWhile_eq_nil_iff.2 blank
    simp [read?, hvalue, hafter]

end LogCatalog.Json
