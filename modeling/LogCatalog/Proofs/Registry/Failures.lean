import LogCatalog.Proofs.Registry.Markers

/-!
# Failures at a desk

The registry counts the failures of each component on its own and stops at the largest number it can
hold. A count never falls and passes the threshold one at a time, so the warning that looks for this
one number comes once in a run and the component stays barred from there on.
-/
namespace LogCatalog.Desk

/-- The failures of the component that a command records. -/
def Command.recorded (component : String) : Command → Nat
  | fail c times => if c = component then times else 0
  | _ => 0

def recorded (component : String) (commands : List Command) : Nat :=
  commands.foldl (fun n c => n + c.recorded component) 0

/-- The numbers of failures with which the component was reported as barred. -/
def barrings (component : String) (events : List LogEvent) : List Nat :=
  events.filterMap fun
    | .barred c n => if c = component then some n else none
    | _ => none

/-- Everything that is logged while the commands are performed. -/
def log (d : Desk) (commands : List Command) : List LogEvent :=
  (d.performAll commands).flatMap fun step => step.log

variable {r : Registry} {d : Desk} {component other : String} {m : Nat}

theorem recorded_concat (component : String) (commands : List Command) (c : Command) :
    recorded component (commands ++ [c]) = recorded component commands + c.recorded component := by
  rw [recorded, List.foldl_append]
  rfl

theorem recorded_le_append (component : String) (commands more : List Command) :
    recorded component commands ≤ recorded component (commands ++ more) := by
  induction more using List.reverseRecOn with
  | nil => simp
  | append_singleton more c ih =>
    rw [← List.append_assoc, recorded_concat]
    omega

theorem barrings_append (component : String) (events more : List LogEvent) :
    barrings component (events ++ more) = barrings component events ++ barrings component more :=
  List.filterMap_append

theorem log_concat (d : Desk) (commands : List Command) (c : Command) :
    d.log (commands ++ [c]) = d.log commands ++ LogEvent.sorted ((d.run commands).perform c).2.1 := by
  rw [log, performAll_append, List.flatMap_append]
  exact congrArg _ (List.append_nil _)

theorem failTimes_succ (r : Registry) (component : String) (n : Nat) :
    failTimes r component (n + 1) =
      ((r.addFailure component).failuresOf component :: (failTimes (r.addFailure component) component n).1,
        (r.addFailure component).warnings component ++ (failTimes (r.addFailure component) component n).2.1,
        (failTimes (r.addFailure component) component n).2.2) :=
  rfl

theorem failuresOf_addFailure (h : r.failuresOf component = min m Registry.maxFailures) :
    (r.addFailure component).failuresOf component = min (m + 1) Registry.maxFailures := by
  rw [Registry.failuresOf_addFailure, if_pos rfl]
  omega

theorem warnings_addFailure (h : r.failuresOf component = min m Registry.maxFailures) :
    (r.addFailure component).warnings component = if m + 1 = 10 then [.barred component 10] else [] := by
  have hlarge : 10 < Registry.maxFailures := by decide
  have hten : Registry.threshold = 10 := rfl
  rw [Registry.warnings, failuresOf_addFailure h, hten]
  by_cases hnow : m + 1 = 10
  · simp [hnow, Nat.min_eq_left (Nat.le_of_lt hlarge)]
  · rw [if_neg hnow, if_neg (by omega)]

/-- How often a component has failed is `m`; what is kept of it is bounded. -/
theorem failuresOf_failTimes (h : r.failuresOf component = min m Registry.maxFailures) (times : Nat) :
    (failTimes r component times).2.2.failuresOf component =
      min (m + times) Registry.maxFailures := by
  induction times generalizing r m with
  | zero => exact h
  | succ n ih => rw [failTimes_succ, ih (failuresOf_addFailure h), Nat.add_right_comm, Nat.add_assoc]

theorem failuresOf_failTimes_of_ne (hne : component ≠ other) (times : Nat) :
    (failTimes r component times).2.2.failuresOf other = r.failuresOf other := by
  induction times generalizing r with
  | zero => rfl
  | succ n ih => rw [failTimes_succ, ih, Registry.failuresOf_addFailure, if_neg hne]

theorem counts_failTimes (h : r.failuresOf component = min m Registry.maxFailures) (times : Nat) :
    (failTimes r component times).1 =
      (List.range times).map fun i => min (m + i + 1) Registry.maxFailures := by
  induction times generalizing r m with
  | zero => rfl
  | succ n ih =>
    have hshift : (List.range n).map (fun i => min (m + 1 + i + 1) Registry.maxFailures) =
        (List.range n).map ((fun i => min (m + i + 1) Registry.maxFailures) ∘ Nat.succ) := by
      apply List.map_congr_left
      intro i _
      rw [Function.comp_apply, Nat.succ_eq_add_one, Nat.add_right_comm m 1, Nat.add_assoc m i]
    rw [failTimes_succ, failuresOf_addFailure h, ih (failuresOf_addFailure h), hshift,
      List.range_succ_eq_map, List.map_cons, List.map_map, Nat.add_zero]

/-- The warning comes with the failure that brings the count to the threshold. -/
theorem events_failTimes (h : r.failuresOf component = min m Registry.maxFailures) (times : Nat) :
    (failTimes r component times).2.1 =
      if m < 10 ∧ 10 ≤ m + times then [.barred component 10] else [] := by
  induction times generalizing r m with
  | zero =>
    rw [if_neg (by omega)]
    rfl
  | succ n ih =>
    rw [failTimes_succ, warnings_addFailure h, ih (failuresOf_addFailure h)]
    by_cases hnow : m + 1 = 10
    · rw [if_pos hnow, if_neg (by omega), if_pos (by omega), List.append_nil]
    · have hstep : m + 1 < 10 ∧ 10 ≤ m + 1 + n ↔ m < 10 ∧ 10 ≤ m + (n + 1) := by omega
      rw [if_neg hnow, List.nil_append, if_congr hstep rfl rfl]

/-- A command adds what it records and leaves the failures of all other components alone. -/
theorem failuresOf_perform (h : d.registry.failuresOf component = min m Registry.maxFailures)
    (c : Command) :
    (d.perform c).2.2.registry.failuresOf component =
      min (m + c.recorded component) Registry.maxFailures := by
  cases c with
  | ask id asked k =>
    have hask : (d.ask id asked k).2.registry.failuresOf component = d.registry.failuresOf component := by
      rw [ask_snd]
      split
      · exact failuresOf_lend d id k component
      · rfl
    exact hask.trans h
  | release id => exact (failuresOf_release d id component).trans h
  | crowd asked k callers =>
    have hcrowd : (d.perform (.crowd asked k callers)).2.2 = d := crowd_snd d asked k callers
    rwa [hcrowd]
  | fail failing times =>
    change (failTimes d.registry failing times).2.2.failuresOf component = _
    rw [Command.recorded]
    split
    · next heq =>
      rw [heq]
      exact failuresOf_failTimes h times
    · next hne =>
      rw [failuresOf_failTimes_of_ne hne, h, Nat.add_zero]
  | failures | isMarked | threshold => exact h

theorem failuresOf_run (component : String) (commands : List Command) :
    (({} : Desk).run commands).registry.failuresOf component =
      min (recorded component commands) Registry.maxFailures := by
  induction commands using List.reverseRecOn with
  | nil => rfl
  | append_singleton commands c ih =>
    rw [run_concat, recorded_concat]
    exact failuresOf_perform ih c

/-- A command reports the component at most once, with the failure that makes it barred. -/
theorem barrings_perform {m : String → Nat}
    (h : ∀ component, d.registry.failuresOf component = min (m component) Registry.maxFailures)
    (component : String) (c : Command) :
    barrings component (LogEvent.sorted (d.perform c).2.1) =
      if m component < 10 ∧ 10 ≤ m component + c.recorded component then [10] else [] := by
  have hstill : ¬(m component < 10 ∧ 10 ≤ m component) := by omega
  cases c with
  | fail failing times =>
    have hevents : (d.perform (.fail failing times)).2.1 =
        if m failing < 10 ∧ 10 ≤ m failing + times then [.barred failing 10] else [] :=
      events_failTimes (h failing) times
    rw [hevents, Command.recorded]
    by_cases heq : failing = component
    · rw [heq, if_pos rfl]
      split <;> simp [LogEvent.sorted, barrings]
    · rw [if_neg heq, Nat.add_zero, if_neg hstill]
      split <;> simp [LogEvent.sorted, barrings, heq]
  | ask | release | crowd | failures | isMarked | threshold =>
    simp [perform, LogEvent.sorted, barrings, Command.recorded, hstill]

theorem barrings_log (component : String) (commands : List Command) :
    barrings component (log {} commands) = if 10 ≤ recorded component commands then [10] else [] := by
  induction commands using List.reverseRecOn with
  | nil => rfl
  | append_singleton commands c ih =>
    have hstep := barrings_perform (fun other => failuresOf_run other commands) component c
    rw [log_concat, barrings_append, ih, hstep, recorded_concat]
    by_cases hbefore : 10 ≤ recorded component commands
    · rw [if_pos hbefore, if_neg (by omega), if_pos (by omega), List.append_nil]
    · have hnow : recorded component commands < 10 := by omega
      simp only [if_neg hbefore, List.nil_append, hnow, true_and]

/-- Each failure counts until the largest number is reached, and the tenth one bars the component for
good and is the only one that is reported. -/
theorem failures_recorded (component : String) (commands : List Command) :
    let d := ({} : Desk).run commands
    let n := recorded component commands
    d.registry.failuresOf component = min n (UInt32.size - 1) ∧
    (d.registry.isBarred component ↔ 10 ≤ n) ∧
    (∀ more, d.registry.isBarred component → (d.run more).registry.isBarred component) ∧
    (∀ times, (d.perform (.fail component times)).1 =
      .counts ((List.range times).map fun i => min (n + i + 1) (UInt32.size - 1))) ∧
    (∀ times, (d.perform (.fail component times)).2.1 =
      if n < 10 ∧ 10 ≤ n + times then [.barred component 10] else []) ∧
    barrings component (log {} commands) = (if 10 ≤ n then [10] else []) ∧
    (LogEvent.barred component 10).toJson =
      .array [.text "WARN",
        .text ("too many failed logsearch metadata requests; " ++
          "ignoring component for LogSearch integration"),
        .object [("component", .text component), ("failures", .natural 10)]] := by
  intro d n
  have hcount (commands : List Command) := failuresOf_run component commands
  have hbarred (commands : List Command) :
      (({} : Desk).run commands).registry.isBarred component ↔ 10 ≤ recorded component commands := by
    have hlarge : 10 < Registry.maxFailures := by decide
    have hten : Registry.threshold = 10 := rfl
    rw [Registry.isBarred_iff, hcount, hten]
    omega
  refine ⟨hcount commands, hbarred commands, ?_, ?_, ?_, barrings_log component commands, rfl⟩
  · intro more hnow
    rw [← run_append, hbarred]
    exact Nat.le_trans ((hbarred commands).1 hnow) (recorded_le_append component commands more)
  · intro times
    exact congrArg Reply.counts (counts_failTimes (hcount commands) times)
  · intro times
    exact events_failTimes (hcount commands) times

end LogCatalog.Desk
