import LogCatalog.Clockwork

/-!
# Clockworks at rest

If every step leaves less to do, settling ends where no step can be taken, and then it does not matter how
many steps it was allowed. A clockwork that goes as the image of another one settles and advances as its
image.
-/
namespace LogCatalog.Clockwork

variable {α β : Type} {c : Clockwork α} {d : Clockwork β} {s next : α} {m n target time : Nat}

theorem settleWithin_of_some (h : c.next? s = some next) (n : Nat) :
    c.settleWithin (n + 1) s = c.settleWithin n next := by
  rw [settleWithin, h]

theorem settleWithin_of_none (h : c.next? s = none) (n : Nat) : c.settleWithin n s = s := by
  cases n with
  | zero => rfl
  | succ n => rw [settleWithin, h]

theorem settle_of_none (h : c.next? s = none) : c.settle s = s := settleWithin_of_none h _

/-- What every step preserves holds after settling. -/
theorem settleWithin_induction {P : α → Prop} (step : ∀ s next, P s → c.next? s = some next → P next)
    (h : P s) (n : Nat) : P (c.settleWithin n s) := by
  induction n generalizing s with
  | zero => exact h
  | succ n ih =>
    cases hnext : c.next? s with
    | none => rwa [settleWithin_of_none hnext]
    | some next =>
      rw [settleWithin_of_some hnext]
      exact ih (step s next h hnext)

/-- What every step and the clock preserve holds after any time. -/
theorem advanceWithin_induction {P : α → Prop} (step : ∀ s next, P s → c.next? s = some next → P next)
    (clock : ∀ s ms, P s → P (c.elapse s ms)) (h : P s) (n target : Nat) :
    P (c.advanceWithin n target s) := by
  have hmove (s : α) (time : Nat) (hs : P s) : P (c.settle (c.moveClock s time)) :=
    settleWithin_induction step (clock s _ hs) _
  induction n generalizing s with
  | zero => exact hmove s target h
  | succ n ih =>
    rw [advanceWithin]
    split
    · next time _ =>
      split
      · exact ih (hmove s time h)
      · exact hmove s target h
    · exact clock s _ h

theorem advance_induction {P : α → Prop} (step : ∀ s next, P s → c.next? s = some next → P next)
    (clock : ∀ s ms, P s → P (c.elapse s ms)) (h : P s) (ms : Nat) : P (c.advance s ms) :=
  advanceWithin_induction step clock (settleWithin_induction step h _) _ _

/-- If every step lowers what is left, so many steps are enough. -/
theorem next?_settleWithin {P : α → Prop} {left : α → Nat}
    (step : ∀ s next, P s → c.next? s = some next → P next ∧ left next < left s) (h : P s)
    (hn : left s ≤ n) : c.next? (c.settleWithin n s) = none := by
  induction n generalizing s with
  | zero =>
    cases hnext : c.next? s with
    | none => exact hnext
    | some next =>
      have hlt := (step s next h hnext).2
      omega
  | succ n ih =>
    cases hnext : c.next? s with
    | none => rwa [settleWithin_of_none hnext]
    | some next =>
      obtain ⟨hkept, hlt⟩ := step s next h hnext
      rw [settleWithin_of_some hnext]
      exact ih hkept (by omega)

/-- Where settling ends does not depend on how many steps it was allowed. -/
theorem settleWithin_eq_of_rest (hm : c.next? (c.settleWithin m s) = none)
    (hn : c.next? (c.settleWithin n s) = none) : c.settleWithin m s = c.settleWithin n s := by
  induction m generalizing n s with
  | zero =>
    have hrest : c.next? s = none := hm
    rw [settleWithin_of_none hrest, settleWithin_of_none hrest]
  | succ m ih =>
    cases hnext : c.next? s with
    | none => rw [settleWithin_of_none hnext, settleWithin_of_none hnext]
    | some next =>
      cases n with
      | zero =>
        have hrest : c.next? s = none := hn
        rw [hrest] at hnext
        cases hnext
      | succ n =>
        rw [settleWithin_of_some hnext] at hm hn ⊢
        rw [settleWithin_of_some hnext]
        exact ih hm hn

theorem nextWake?_eq_some_iff :
    c.nextWake? s = some time ↔ time ∈ c.wakes s ∧ ∀ wake ∈ c.wakes s, time ≤ wake :=
  List.min?_eq_some_iff

theorem nextWake?_eq_none_iff : c.nextWake? s = none ↔ c.wakes s = [] := List.min?_eq_none_iff

/-- Nothing becomes due before a time, unless the next wake does. -/
theorem le_wake_of_nextWake? (h : ∀ time, c.nextWake? s = some time → target ≤ time) {wake : Nat}
    (hwake : wake ∈ c.wakes s) : target ≤ wake := by
  cases hw : c.nextWake? s with
  | none =>
    rw [nextWake?_eq_none_iff.1 hw] at hwake
    cases hwake
  | some time => exact Nat.le_trans (h time hw) ((nextWake?_eq_some_iff.1 hw).2 wake hwake)

theorem advanceWithin_of_wake (hw : c.nextWake? s = some time) (hlt : time < target) (n : Nat) :
    c.advanceWithin (n + 1) target s = c.advanceWithin n target (c.settle (c.moveClock s time)) := by
  simp only [advanceWithin, hw, if_pos hlt]

/-- If nothing becomes due before the target, then the clock goes there at once. -/
theorem advanceWithin_of_no_wake (rest : c.wakes s = [] → c.next? (c.moveClock s target) = none)
    (hwake : ∀ time, c.nextWake? s = some time → target ≤ time) (n : Nat) :
    c.advanceWithin n target s = c.settle (c.moveClock s target) := by
  cases n with
  | zero => rfl
  | succ n =>
    cases hw : c.nextWake? s with
    | none => rw [settle_of_none (rest (nextWake?_eq_none_iff.1 hw)), advanceWithin, hw]
    | some time => simp only [advanceWithin, hw, if_neg (Nat.not_lt.2 (hwake time hw))]

/-- As long as `P` holds, the one clockwork goes as the other one shows under `image`, and both come to
rest. -/
structure Shows (c : Clockwork α) (d : Clockwork β) (image : α → β) (P : α → Prop) : Prop where
  now : ∀ s, P s → d.now (image s) = c.now s
  next? : ∀ s, P s → d.next? (image s) = (c.next? s).map image
  elapse : ∀ s ms, P s → d.elapse (image s) ms = image (c.elapse s ms)
  wakes : ∀ s, P s → d.wakes (image s) = c.wakes s
  step : ∀ s next, P s → c.next? s = some next → P next
  clock : ∀ s ms, P s → P (c.elapse s ms)
  rest : ∀ s, P s → c.next? (c.settle s) = none ∧ d.next? (d.settle (image s)) = none

namespace Shows

variable {image : α → β} {P : α → Prop}

theorem settleWithin_image (h : Shows c d image P) (hs : P s) (n : Nat) :
    d.settleWithin n (image s) = image (c.settleWithin n s) := by
  induction n generalizing s with
  | zero => rfl
  | succ n ih =>
    have himage := h.next? s hs
    cases hnext : c.next? s with
    | none =>
      rw [hnext] at himage
      rw [settleWithin_of_none hnext, settleWithin_of_none himage]
    | some next =>
      rw [hnext] at himage
      rw [settleWithin_of_some hnext, settleWithin_of_some himage]
      exact ih (h.step s next hs hnext)

theorem settle_image (h : Shows c d image P) (hs : P s) : d.settle (image s) = image (c.settle s) := by
  obtain ⟨hrest, hrest'⟩ := h.rest s hs
  have hkept : P (c.settle s) := settleWithin_induction h.step hs _
  have hfar : d.next? (d.settleWithin (c.backlog s) (image s)) = none := by
    rw [h.settleWithin_image hs]
    exact (h.next? _ hkept).trans (congrArg (Option.map image) hrest)
  exact (settleWithin_eq_of_rest hrest' hfar).trans (h.settleWithin_image hs _)

theorem moveClock_image (h : Shows c d image P) (hs : P s) (time : Nat) :
    d.moveClock (image s) time = image (c.moveClock s time) := by
  rw [moveClock, h.now s hs, h.elapse s _ hs, moveClock]

theorem advanceWithin_image (h : Shows c d image P) (hs : P s) (n target : Nat) :
    d.advanceWithin n target (image s) = image (c.advanceWithin n target s) := by
  have hmove (s : α) (time : Nat) (hs : P s) :
      d.settle (d.moveClock (image s) time) = image (c.settle (c.moveClock s time)) := by
    rw [h.moveClock_image hs]
    exact h.settle_image (h.clock s _ hs)
  induction n generalizing s with
  | zero => exact hmove s target hs
  | succ n ih =>
    have hwake : d.nextWake? (image s) = c.nextWake? s := congrArg List.min? (h.wakes s hs)
    rw [advanceWithin, advanceWithin, hwake]
    cases c.nextWake? s with
    | none => exact h.moveClock_image hs target
    | some time =>
      have hkept : P (c.settle (c.moveClock s time)) := settleWithin_induction h.step (h.clock s _ hs) _
      simp only [hmove s time hs, hmove s target hs, ih hkept]
      split <;> rfl

theorem advance_image (h : Shows c d image P) (hs : P s) (ms : Nat) :
    d.advance (image s) ms = image (c.advance s ms) := by
  have hkept : P (c.settle s) := settleWithin_induction h.step hs _
  rw [advance, h.now s hs, h.settle_image hs, h.advanceWithin_image hkept, advance]

end Shows
end LogCatalog.Clockwork
