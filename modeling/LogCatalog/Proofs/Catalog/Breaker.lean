import LogCatalog.Proofs.Catalog.Outage

/-!
# Barring a component

Failures of a component are recorded when its fetches leave, long after they were let in, so the count
can pass the threshold. It passes it by no more than the fetches that were outstanding then: from the
threshold on, the failures of a component and its outstanding fetches together never become more.
-/
namespace LogCatalog.Catalog

/-- The number of outstanding fetches requested for a component. -/
def outstandingFor (s : Catalog) (component : String) : Nat :=
  s.pool.outstanding.countP fun f => f.request.component = component

variable {s : Catalog} {component : String}

theorem failuresOf_act_cases (h : s.Tidy) (a : Action) (component : String) :
    (s.act a).failuresOf component = s.failuresOf component ∨
      (s.act a).failuresOf component = s.failuresOf component + 1 := by
  have hle := h.failures component
  rw [(traffic h a).failuresOf_act]
  split <;> omega

/-- An event adds one failure at most. -/
theorem failuresOf_meet_cases (h : s.Tidy) (e : Event) (component : String) :
    (s.meet e).failuresOf component = s.failuresOf component ∨
      (s.meet e).failuresOf component = s.failuresOf component + 1 := by
  cases e with
  | action a => exact failuresOf_act_cases h a component
  | runtimeLost => exact .inl (failuresOf_loseRuntime s component)

theorem failuresOf_live_le (h : s.Tidy) (events : List Event) (component : String) :
    s.failuresOf component ≤ (s.live events).failuresOf component := by
  induction events generalizing s with
  | nil => exact Nat.le_refl _
  | cons e events ih =>
    have hlive := ih (h.meet e)
    rcases failuresOf_meet_cases h e component with he | he
    · rwa [he] at hlive
    · rw [he] at hlive
      exact Nat.le_of_succ_le hlive

/-- A barred component gets no fetch. -/
theorem component_ne_of_queued? (h : s.Tidy) (hb : Registry.threshold ≤ s.failuresOf component)
    {a : Action} {f : Fetch} (hf : s.queued? a = some f) : f.request.component ≠ component := by
  cases traffic h a with
  | still _ queues => exact nomatch queues.symm.trans hf
  | joins r _ _ admits _ queues =>
    obtain rfl := Option.some.inj (queues.symm.trans hf)
    rintro rfl
    exact admits.unbarred (Registry.isBarred_iff.2 hb)
  | leaves _ _ queues => exact nomatch queues.symm.trans hf

/-- A fetch that joins is for a component that is not barred, and a failure is of a fetch that leaves. -/
theorem failuresOf_add_outstandingFor_act_le (h : s.Tidy)
    (hb : Registry.threshold ≤ s.failuresOf component) (a : Action) :
    (s.act a).failuresOf component + (s.act a).outstandingFor component ≤
      s.failuresOf component + s.outstandingFor component := by
  have hf := (traffic h a).failuresOf_act component
  cases traffic h a with
  | still exits _ outstanding =>
    simp only [exits, reduceCtorEq, false_and, exists_false, if_false] at hf
    rw [hf, outstandingFor, outstanding]
    exact Nat.le_refl _
  | joins r _ _ _ exits queues outstanding =>
    simp only [exits, reduceCtorEq, false_and, exists_false, if_false] at hf
    have hr := component_ne_of_queued? h hb queues
    rw [hf, outstandingFor, outstanding, List.countP_append, List.countP_singleton,
      if_neg (by simpa using hr)]
    exact Nat.le_refl _
  | leaves x exits _ member outstanding =>
    simp only [exits, Option.some.injEq, exists_eq_left'] at hf
    have ho : s.outstandingFor component = (s.act a).outstandingFor component +
        if x.fetch.request.component = component then 1 else 0 := by
      rw [outstandingFor, (List.perm_cons_erase member).countP_eq, List.countP_cons, outstandingFor,
        outstanding]
      simp only [decide_eq_true_eq]
    rw [hf, ho]
    by_cases hx : x.fetch.request.component = component
    · rw [if_pos hx]
      split <;> omega
    · rw [if_neg (fun e => hx e.2), if_neg hx]
      omega

theorem failuresOf_add_outstandingFor_meet_le (h : s.Tidy)
    (hb : Registry.threshold ≤ s.failuresOf component) (e : Event) :
    (s.meet e).failuresOf component + (s.meet e).outstandingFor component ≤
      s.failuresOf component + s.outstandingFor component := by
  cases e with
  | action a => exact failuresOf_add_outstandingFor_act_le h hb a
  | runtimeLost =>
    rw [meet, failuresOf_loseRuntime, outstandingFor, outstanding_loseRuntime]
    exact Nat.le_add_right _ _

theorem failuresOf_add_outstandingFor_live_le (h : s.Tidy)
    (hb : Registry.threshold ≤ s.failuresOf component) (events : List Event) :
    (s.live events).failuresOf component + (s.live events).outstandingFor component ≤
      s.failuresOf component + s.outstandingFor component := by
  induction events generalizing s with
  | nil => exact Nat.le_refl _
  | cons e events ih =>
    have hb' : Registry.threshold ≤ (s.meet e).failuresOf component :=
      Nat.le_trans hb (failuresOf_live_le h [e] component)
    exact Nat.le_trans (ih (h.meet e) hb') (failuresOf_add_outstandingFor_meet_le h hb e)

/-- The count does not jump over the threshold. -/
theorem exists_barring (h : s.Tidy) (hlt : s.failuresOf component < Registry.threshold)
    {events : List Event} (hle : Registry.threshold ≤ (s.live events).failuresOf component) :
    ∃ before e after, events = before ++ e :: after ∧
      (s.live before).failuresOf component + 1 = Registry.threshold ∧
      ((s.live before).meet e).failuresOf component = Registry.threshold := by
  induction events generalizing s with
  | nil => exact absurd hle (Nat.not_le.2 hlt)
  | cons e events ih =>
    by_cases hb : (s.meet e).failuresOf component < Registry.threshold
    · obtain ⟨before, e', after, rfl, hbefore, hafter⟩ := ih (h.meet e) hb hle
      exact ⟨e :: before, e', after, rfl, hbefore, hafter⟩
    · refine ⟨[], e, events, rfl, ?_⟩
      have hstep := failuresOf_meet_cases h e component
      rw [live_nil]
      omega

/-- The failure count of a component never goes down. Once it has reached ten, no fetch is ever queued
for the component, and the count and the outstanding fetches of the component together never become more;
so the count never exceeds ten by more than the fetches that were outstanding right after the tenth
failure. A fetch of the component that leaves with a failure adds one to the count, as far as counts go,
and an event by which none leaves does not change it. -/
theorem failures_bounded (policy : Policy) (remote : Remote) (events more : List Event)
    (component : String) :
    let s := (new policy remote).live events
    let s' := s.live more
    s.failuresOf component ≤ s'.failuresOf component ∧
    (10 ≤ s.failuresOf component →
      (∀ a f, s'.queued? a = some f → f.request.component ≠ component) ∧
      s'.failuresOf component + s'.outstandingFor component ≤
        s.failuresOf component + s.outstandingFor component) ∧
    (s.failuresOf component < 10 → 10 ≤ s'.failuresOf component →
      ∃ before e after, more = before ++ e :: after ∧
        (s.live before).failuresOf component = 9 ∧
        ((s.live before).meet e).failuresOf component = 10 ∧
        s'.failuresOf component ≤ 10 + ((s.live before).meet e).outstandingFor component) ∧
    (∀ a x, s.exit? a = some x → x.isFailure → x.fetch.request.component = component →
      (s.act a).failuresOf component = min (s.failuresOf component + 1) Registry.maxFailures) ∧
    ∀ e, (∀ a x, e = .action a → s.exit? a = some x → x.fetch.request.component ≠ component) →
      (s.meet e).failuresOf component = s.failuresOf component := by
  intro s s'
  have h : s.Tidy := (tidy_new policy remote).live events
  have hmono := failuresOf_live_le h more component
  refine ⟨hmono, ?_, ?_, ?_, ?_⟩
  · intro hb
    refine ⟨?_, failuresOf_add_outstandingFor_live_le h hb more⟩
    intro a f hf
    exact component_ne_of_queued? (h.live more) (Nat.le_trans hb hmono) hf
  · intro hlt hle
    obtain ⟨before, e, after, rfl, hbefore, hafter⟩ := exists_barring h hlt hle
    refine ⟨before, e, after, rfl, Nat.succ.inj hbefore, hafter, ?_⟩
    have hsum := failuresOf_add_outstandingFor_live_le ((h.live before).meet e)
      (Nat.le_of_eq hafter.symm) after
    rw [← live_cons, ← live_append, hafter] at hsum
    exact Nat.le_trans (Nat.le_add_right _ _) hsum
  · intro a x hx hfailure hc
    rw [(traffic h a).failuresOf_act, if_pos ⟨x, hx, hfailure, hc⟩]
  · intro e hx
    cases e with
    | action a =>
      rw [meet, (traffic h a).failuresOf_act, if_neg]
      rintro ⟨x, he, -, hc⟩
      exact hx a x rfl he hc
    | runtimeLost => exact failuresOf_loseRuntime s component

/-- Twelve lookups of one component on as many hosts are queued before the first fetch fails. Ten failures bar
the component while two fetches are outstanding, and these two make it twelve. -/
theorem failures_bounded_of_twelve :
    let s₀ := new (.ofHours 1) (answering [])
    let asked : List Event := .action (.start true) ::
      (List.range 12).map fun n => .action (.names "server" (toString n) "east")
    let fetched (n : Nat) : List Event :=
      [.receive, .grant, .resume n, .resume n].map fun m => .action (.background (.move m))
    let barring := (List.range 10).flatMap fetched
    let rest := [10, 11].flatMap fetched
    let s := s₀.live (asked ++ barring)
    (s₀.live asked).failuresOf "server" = 0 ∧ s.failuresOf "server" = 10 ∧ s.outstandingFor "server" = 2 ∧
      (s.live rest).failuresOf "server" = 12 ∧
      (∀ a f, (s.live rest).queued? a = some f → f.request.component ≠ "server") ∧
      ∃ before e after, barring ++ rest = before ++ e :: after ∧
        (((s₀.live asked).live before).meet e).failuresOf "server" = 10 ∧
        12 ≤ 10 + (((s₀.live asked).live before).meet e).outstandingFor "server" := by
  intro s₀ asked fetched barring rest s
  have hnone : (s₀.live asked).failuresOf "server" = 0 := by decide +kernel
  have hten : s.failuresOf "server" = 10 := by decide +kernel
  have htwo : s.outstandingFor "server" = 2 := by decide +kernel
  have htwelve : (s.live rest).failuresOf "server" = 12 := by decide +kernel
  have hwhole : (s₀.live asked).live (barring ++ rest) = s.live rest := by
    rw [← live_append, ← List.append_assoc, live_append]
  obtain ⟨-, hbarred, -⟩ := failures_bounded (.ofHours 1) (answering []) (asked ++ barring) rest "server"
  obtain ⟨hnever, -⟩ := hbarred (Nat.le_of_eq hten.symm)
  obtain ⟨-, -, hpassed, -⟩ := failures_bounded (.ofHours 1) (answering []) asked (barring ++ rest) "server"
  have hlate : 10 ≤ ((s₀.live asked).live (barring ++ rest)).failuresOf "server" := by
    rw [hwhole, htwelve]
    decide
  obtain ⟨before, e, after, hsplit, -, htenth, hbound⟩ :=
    hpassed (Nat.lt_of_le_of_lt (Nat.le_of_eq hnone) (by decide)) hlate
  refine ⟨hnone, hten, htwo, htwelve, hnever, before, e, after, hsplit, htenth, ?_⟩
  exact Nat.le_trans (Nat.le_of_eq (by rw [hwhole, htwelve])) hbound

end LogCatalog.Catalog
