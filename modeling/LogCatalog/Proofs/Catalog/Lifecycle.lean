import LogCatalog.Proofs.Catalog.Address
import LogCatalog.Proofs.Catalog.Outage

/-!
# The life cycle

What an event does to the phase is told from the phase alone, and the phase only moves from idle to running
and from running to stopped. Hence the first start with a runtime is the only one that succeeds. Calls that
their phase makes fail leave the whole catalog as it is, wherever they come in a life.
-/
namespace LogCatalog

namespace Phase

/-- The phase after an event. -/
def after (phase : Phase) : Catalog.Event → Phase
  | .action a => phase.next a
  | .runtimeLost => phase

/-- The phase makes the call fail: a start that lacks a runtime or is not the first, or anything else that
needs a running catalog. -/
def Fails : Phase → Catalog.Action → Prop
  | phase, .start runtime => runtime → phase ≠ .idle
  | phase, .stop | phase, .names .. | phase, .tail .. => phase ≠ .running
  | _, _ => False

variable {phase : Phase} {e : Catalog.Event} {events : List Catalog.Event}

/-- No event but a start and a stop moves the phase, and each of them moves it one step on. -/
theorem after_cases (phase : Phase) (e : Catalog.Event) :
    phase.after e = phase ∨
      phase = .idle ∧ e = .action (.start true) ∧ phase.after e = .running ∨
      phase = .running ∧ e = .action .stop ∧ phase.after e = .stopped := by
  cases e with
  | runtimeLost => exact .inl rfl
  | action a =>
    rw [Catalog.Event.action.injEq, Catalog.Event.action.injEq]
    exact phase.next_cases a

theorem after_eq_idle_iff : phase.after e = .idle ↔ phase = .idle ∧ e ≠ .action (.start true) := by
  rcases after_cases phase e with h | ⟨rfl, rfl, h⟩ | ⟨rfl, rfl, h⟩
  · rw [h]
    refine ⟨fun idle => ⟨idle, ?_⟩, And.left⟩
    rintro rfl
    rw [idle] at h
    exact nomatch h
  · simp [h]
  · simp [h]

theorem foldl_after_eq_idle_iff :
    events.foldl after phase = .idle ↔ phase = .idle ∧ .action (.start true) ∉ events := by
  induction events generalizing phase with
  | nil => simp
  | cons e events ih => rw [List.foldl_cons, ih, after_eq_idle_iff, List.mem_cons, not_or, ne_comm, and_assoc]

theorem foldl_after_stopped : events.foldl after .stopped = .stopped := by
  induction events with
  | nil => rfl
  | cons e events ih =>
    rcases after_cases .stopped e with h | ⟨h, -⟩ | ⟨h, -⟩
    · rw [List.foldl_cons, h, ih]
    · exact nomatch h
    · exact nomatch h

theorem foldl_after_running (events : List Catalog.Event) :
    .action .stop ∉ events ∧ events.foldl after .running = .running ∨
      .action .stop ∈ events ∧ events.foldl after .running = .stopped := by
  induction events with
  | nil => exact .inl ⟨List.not_mem_nil, rfl⟩
  | cons e events ih =>
    rcases after_cases .running e with h | ⟨h, -⟩ | ⟨-, rfl, -⟩
    · have hstop : Catalog.Event.action .stop ≠ e := by
        rintro rfl
        exact nomatch h
      rw [List.foldl_cons, h, List.mem_cons, or_iff_right hstop]
      exact ih
    · exact nomatch h
    · exact .inr ⟨List.mem_cons_self, foldl_after_stopped⟩

theorem foldl_after_running_eq_running_iff :
    events.foldl after .running = .running ↔ .action .stop ∉ events := by
  rcases foldl_after_running events with ⟨h, e⟩ | ⟨h, e⟩ <;> simp [h, e]

theorem foldl_after_running_eq_stopped_iff :
    events.foldl after .running = .stopped ↔ .action .stop ∈ events := by
  rcases foldl_after_running events with ⟨h, e⟩ | ⟨h, e⟩ <;> simp [h, e]

/-- What comes before the first start with a runtime does not matter. -/
theorem foldl_after_idle_eq_iff (started : phase ≠ .idle) :
    events.foldl after .idle = phase ↔ ∃ before rest,
      events = before ++ .action (.start true) :: rest ∧ .action (.start true) ∉ before ∧
        rest.foldl after .running = phase := by
  have hfirst {before rest : List Catalog.Event} (first : .action (.start true) ∉ before) :
      (before ++ .action (.start true) :: rest).foldl after .idle = rest.foldl after .running := by
    rw [List.foldl_append, foldl_after_eq_idle_iff.2 ⟨rfl, first⟩]
    rfl
  constructor
  · intro h
    have hmem : .action (.start true) ∈ events := by
      by_contra hnot
      exact started (h.symm.trans (foldl_after_eq_idle_iff.2 ⟨rfl, hnot⟩))
    obtain ⟨before, rest, rfl, first⟩ := List.eq_append_cons_of_mem hmem
    exact ⟨before, rest, rfl, first, (hfirst first).symm.trans h⟩
  · rintro ⟨before, rest, rfl, first, h⟩
    exact (hfirst first).trans h

end Phase

namespace Catalog

/-- The event is a start that succeeds. -/
def opens (s : Catalog) : Event → Bool
  | .action (.start runtime) => (s.start runtime).toBool
  | _ => false

/-- How many starts of a life succeed. -/
def openings (s : Catalog) : List Event → Nat
  | [] => 0
  | e :: events => (s.opens e).toNat + (s.meet e).openings events

variable {s : Catalog} {a : Action} {e : Event}

theorem phase_meet (s : Catalog) (e : Event) : (s.meet e).phase = s.phase.after e := by
  cases e with
  | action a => exact phase_act s a
  | runtimeLost => rfl

theorem phase_live (s : Catalog) (events : List Event) :
    (s.live events).phase = events.foldl Phase.after s.phase := by
  induction events generalizing s with
  | nil => rfl
  | cons e events ih => rw [live_cons, ih, phase_meet, List.foldl_cons]

theorem opens_iff : s.opens e ↔ s.phase = .idle ∧ e = .action (.start true) := by
  cases e with
  | runtimeLost => simp [opens]
  | action a =>
    cases a with
    | start runtime =>
      cases runtime with
      | false => simp [opens, start, Except.toBool]
      | true => cases hp : s.phase <;> simp [opens, start, hp, Except.toBool]
    | stop | names | tail | openGate | install | regroup | elapse | background => simp [opens]

/-- The start that leads out of the idle phase is the only one that succeeds. -/
theorem openings_eq (s : Catalog) (events : List Event) :
    s.openings events = if s.phase = .idle ∧ (s.live events).phase ≠ .idle then 1 else 0 := by
  induction events generalizing s with
  | nil => simp [openings]
  | cons e events ih =>
    rw [openings, ih, live_cons, phase_meet]
    by_cases hopens : s.opens e
    · obtain ⟨idle, rfl⟩ := opens_iff.1 hopens
      have hlater : ((s.meet (.action (.start true))).live events).phase ≠ .idle := by
        rw [phase_live, phase_meet, idle]
        exact fun h => nomatch (Phase.foldl_after_eq_idle_iff.1 h).1
      simp [hopens, idle, hlater, Phase.after, Phase.next]
    · have hidle : s.phase.after e = .idle ↔ s.phase = .idle := by
        rw [Phase.after_eq_idle_iff, and_iff_left_iff_imp]
        exact fun idle he => hopens (opens_iff.2 ⟨idle, he⟩)
      simp [hopens, hidle]

theorem act_of_fails (h : s.phase.Fails a) : s.act a = s := by
  cases a with
  | start runtime =>
    cases runtime with
    | false => rfl
    | true => exact act_start_of_not_idle (h rfl) true
  | stop => exact act_stop_of_not_running h
  | names component host cluster => exact act_names_of_not_running h component host cluster
  | tail base component host cluster => exact act_tail_of_not_running h base component host cluster
  | openGate | install | regroup | elapse | background => exact h.elim

theorem start_of_running (h : s.phase = .running) : s.start true = .error .alreadyStarted := by
  simp [start, h]

theorem start_of_stopped (h : s.phase = .stopped) : s.start true = .error .stopped := by
  simp [start, h]

theorem start_eq_ok_iff {runtime : Bool} :
    (∃ s', s.start runtime = .ok s') ↔ runtime ∧ s.phase = .idle := by
  cases runtime with
  | false => simp [start]
  | true =>
    cases hp : s.phase with
    | idle => simp [start, hp]
    | running => simp [start_of_running hp]
    | stopped => simp [start_of_stopped hp]

/-- Calls that fail can be made at any point of a life, any number of them. -/
theorem live_of_fails {calls : List Action} (h : ∀ a ∈ calls, s.phase.Fails a) (more : List Event) :
    s.live (calls.map .action ++ more) = s.live more := by
  induction calls with
  | nil => rfl
  | cons a calls ih =>
    have hact : s.meet (.action a) = s := act_of_fails (h a List.mem_cons_self)
    rw [List.map_cons, List.cons_append, live_cons, hact, ih fun b hb => h b (List.mem_cons_of_mem a hb)]

/-- A catalog is idle until the first start with a runtime, then runs until the next stop, and is stopped from
then on. That start is the only one that succeeds. A start without a runtime fails as such in every phase, and
one with a runtime fails as the phase says. A failing start, a stop of a catalog that does not run, and a
lookup in it, which finds nothing, leave the whole catalog as it is with the calls that the remote side
counted, and so a life goes on after any number of them as it would without them. -/
theorem starts_once (policy : Policy) (remote : Remote) (events : List Event) :
    let s := (new policy remote).live events
    let opening := Event.action (.start true)
    (s.phase = .idle ↔ opening ∉ events) ∧
    (s.phase = .running ↔ ∃ before rest, events = before ++ opening :: rest ∧ opening ∉ before ∧
      .action .stop ∉ rest) ∧
    (s.phase = .stopped ↔ ∃ before rest, events = before ++ opening :: rest ∧ opening ∉ before ∧
      .action .stop ∈ rest) ∧
    (∀ e, (s.meet e).phase = s.phase ∨
      s.phase = .idle ∧ e = opening ∧ (s.meet e).phase = .running ∨
      s.phase = .running ∧ e = .action .stop ∧ (s.meet e).phase = .stopped) ∧
    (∀ runtime, (∃ s', s.start runtime = .ok s') ↔ runtime ∧ opening ∉ events) ∧
    (new policy remote).openings events = (if s.phase = .idle then 0 else 1) ∧
    s.start false = .error .noRuntime ∧
    (s.phase = .running → s.start true = .error .alreadyStarted) ∧
    (s.phase = .stopped → s.start true = .error .stopped) ∧
    (∀ runtime error, s.start runtime = .error error → s.act (.start runtime) = s) ∧
    (s.phase ≠ .running → s.act .stop = s ∧
      (∀ component host cluster, s.lookUpNames component host cluster = (none, s)) ∧
      ∀ base component host cluster, s.lookUpTail base component host cluster = (none, s)) ∧
    ∀ calls : List Action, (∀ a ∈ calls, s.phase.Fails a) →
      ∀ more, s.live (calls.map .action ++ more) = s.live more := by
  intro s opening
  have hphase : s.phase = events.foldl Phase.after .idle := phase_live (new policy remote) events
  have hidle : s.phase = .idle ↔ opening ∉ events := by
    rw [hphase, Phase.foldl_after_eq_idle_iff, and_iff_right rfl]
  refine ⟨hidle, ?_, ?_, fun e => ?_, fun runtime => ?_, ?_, rfl, start_of_running, start_of_stopped,
    fun runtime error h => ?_, fun h => ?_, fun calls h => live_of_fails h⟩
  · rw [hphase, Phase.foldl_after_idle_eq_iff (by decide)]
    simp only [Phase.foldl_after_running_eq_running_iff]
    rfl
  · rw [hphase, Phase.foldl_after_idle_eq_iff (by decide)]
    simp only [Phase.foldl_after_running_eq_stopped_iff]
    rfl
  · rw [phase_meet]
    exact s.phase.after_cases e
  · rw [start_eq_ok_iff, hidle]
  · have hnew : (new policy remote).phase = .idle := rfl
    simp only [openings_eq, hnew, true_and, ite_not]
    rfl
  · rw [act, h]
  · exact ⟨act_stop_of_not_running h, lookUpNames_of_not_running h, lookUpTail_of_not_running h⟩

/-- A stop that comes first does not matter, and after the stop that counts nothing more does. -/
theorem starts_once_of_restart :
    let life : List Event := [.action .stop, .action (.start true), .action (.names "server" "host" "east")]
    let s := (new (.ofHours 1) (answering [])).live life
    let later := (new (.ofHours 1) (answering [])).live (life ++ [.action .stop])
    let calls : List Action := [.start true, .stop, .names "server" "host" "east"]
    s.phase = .running ∧ s.start true = .error .alreadyStarted ∧
      later.phase = .stopped ∧ later.start true = .error .stopped ∧
      (new (.ofHours 1) (answering [])).openings (life ++ [.action .stop]) = 1 ∧
      (∀ a ∈ calls, later.phase.Fails a) ∧
      ∀ more, later.live (calls.map .action ++ more) = later.live more := by
  intro life s later calls
  have running : s.phase = .running := by decide
  have stopped : later.phase = .stopped := by decide
  have fails : ∀ a ∈ calls, later.phase.Fails a := by
    rw [stopped]
    simp [calls, Phase.Fails]
  obtain ⟨-, -, -, -, -, -, -, hagain, -⟩ := starts_once (.ofHours 1) (answering []) life
  obtain ⟨-, -, -, -, -, hopenings, -, -, hnever, -, -, hgoes⟩ :=
    starts_once (.ofHours 1) (answering []) (life ++ [.action .stop])
  have started : later.phase ≠ .idle := by decide
  exact ⟨running, hagain running, stopped, hnever stopped, hopenings.trans (if_neg started), fails,
    hgoes calls fails⟩

end Catalog
end LogCatalog
