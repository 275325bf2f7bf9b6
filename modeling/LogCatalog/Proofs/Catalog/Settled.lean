import LogCatalog.Catalog.Schedule
import LogCatalog.Proofs.Catalog.InFlight
import LogCatalog.Proofs.Pool.Deadline

/-!
# Settled catalogs

When no background step can be taken, every outstanding fetch is in a call whose deadline is still ahead,
or it waits behind as many such fetches as there are permits. No fetch is stuck: once the deadlines have
passed, none is outstanding and all permits are free.
-/
namespace LogCatalog.Catalog

/-- The call that an action makes, and when. -/
def called? (s : Catalog) : Action → Option (Nat × Fetch)
  | .background (.move m) => (s.pool.called? s.work m).map (s.now, ·)
  | _ => none

/-- The calls of a run. -/
def calls (s : Catalog) : List Action → List (Nat × Fetch)
  | [] => []
  | a :: actions => (s.called? a).toList ++ (s.act a).calls actions

/-- Permits are accounted for from the start on, and the deadlines of calls under way are those that they
got when they were made. -/
structure Attended (policy : Policy) (s : Catalog) (made : List (Nat × Fetch)) : Prop where
  timeout : s.work.timeout = policy.timeout
  staffed : s.phase ≠ .idle → s.pool.Staffed (Pool.permits (max policy.workers 1))
  deadlines : ∀ f c, ⟨f, .calling c⟩ ∈ s.pool.active →
    ∃ time, (time, f) ∈ made ∧ c.deadline = time + policy.timeout
  following : s.policy = policy

variable {policy : Policy} {s s' : Catalog} {made : List (Nat × Fetch)}

theorem attended_new (policy : Policy) (remote : Remote) : Attended policy (new policy remote) [] where
  timeout := rfl
  staffed h := absurd rfl h
  deadlines _ _ h := nomatch h
  following := rfl

/-- An action that leaves the tasks alone. -/
theorem Attended.congr (h : Attended policy s made) (hp : s'.policy = s.policy)
    (ht : s'.work.timeout = s.work.timeout) (ha : s'.pool.active = s.pool.active)
    (hs : s'.phase ≠ .idle → s'.pool.Staffed (Pool.permits (max policy.workers 1))) :
    Attended policy s' made where
  timeout := ht.trans h.timeout
  staffed := hs
  deadlines := ha ▸ h.deadlines
  following := hp.trans h.following

theorem Attended.start (h : Attended policy s made) (hs : s.Tidy) (runtime : Bool) :
    Attended policy (s.act (.start runtime)) made := by
  rcases act_start s runtime with e | ⟨idle, sweepAt, log, e⟩
  · rwa [e]
  · have hactive : s.pool.active = [] := by
      have ho := hs.idle idle
      rw [Pool.outstanding_eq, List.append_eq_nil_iff] at ho
      exact List.map_eq_nil_iff.1 ho.1
    rw [e]
    refine h.congr rfl rfl hactive.symm fun _ => ?_
    rw [← h.following]
    exact Pool.staffed_start _

theorem Attended.stop (h : Attended policy s made) : Attended policy (s.act .stop) made := by
  by_cases hp : s.phase = .running
  · rw [act_stop_of_running hp]
    refine h.congr rfl rfl rfl fun _ => ?_
    have hstaffed := h.staffed (by rw [hp]; exact nofun)
    exact ⟨hstaffed.permits, hstaffed.looping⟩
  · rwa [act_stop_of_not_running hp]

theorem Attended.names (h : Attended policy s made) (component host cluster : String) :
    Attended policy (s.act (.names component host cluster)) made := by
  by_cases hp : s.phase = .running
  · obtain ⟨answer, -, hserved⟩ := act_names_of_running hp component host cluster
    generalize s.act (.names component host cluster) = s' at hserved
    cases hserved with
    | hit | turnedAway | joined | refused => exact h.congr rfl rfl rfl h.staffed
    | queued _ _ looping =>
      refine h.congr rfl rfl rfl fun e => ?_
      exact ⟨(h.staffed e).permits, fun _ => looping⟩
  · rwa [act_names_of_not_running hp]

theorem Attended.tail (h : Attended policy s made) (base component host cluster : String) :
    Attended policy (s.act (.tail base component host cluster)) made := by
  by_cases hp : s.phase = .running
  · obtain ⟨tails, remote, t, -, e⟩ := act_tail_of_running hp base component host cluster
    rw [e]
    exact h.congr rfl rfl rfl h.staffed
  · rwa [act_tail_of_not_running hp]

theorem Attended.sweep (h : Attended policy s made) : Attended policy (s.act (.background .sweep)) made := by
  rcases act_sweep s with e | ⟨sweepAt, log, e⟩
  · rwa [e]
  · rw [e]
    exact h.congr rfl rfl rfl h.staffed

theorem Attended.move (h : Attended policy s made) (hs : s.Tidy) (m : Move) :
    Attended policy (s.act (.background (.move m)))
      (made ++ (s.called? (.background (.move m))).toList) := by
  have hmore (x : Nat × Fetch) (hx : x ∈ made) : x ∈ made ++ (s.called? (.background (.move m))).toList :=
    List.mem_append_left _ hx
  rcases act_move s m with ⟨e, -⟩ | ⟨work, pool, e, hstep⟩
  · rw [e]
    refine ⟨h.timeout, h.staffed, ?_, h.following⟩
    intro f c hc
    obtain ⟨time, hmem, hd⟩ := h.deadlines f c hc
    exact ⟨time, hmore _ hmem, hd⟩
  · rw [e]
    refine ⟨hstep.timeout_eq.trans h.timeout, fun hp => hstep.staffed hs.tickets (h.staffed hp), ?_,
      h.following⟩
    intro f c hc
    rcases hstep.calling_cases hs.tickets hc with ⟨c₀, hc₀, hd⟩ | ⟨hcalled, hd⟩
    · obtain ⟨time, hmem, hd₀⟩ := h.deadlines f c₀ hc₀
      exact ⟨time, hmore _ hmem, hd.trans hd₀⟩
    · refine ⟨s.now, List.mem_append_right _ ?_, ?_⟩
      · rw [called?, hcalled]
        exact List.mem_singleton_self _
      · rw [hd, h.timeout]
        rfl

theorem Attended.act (h : Attended policy s made) (hs : s.Tidy) (a : Action) :
    Attended policy (s.act a) (made ++ (s.called? a).toList) := by
  have hquiet (hnone : s.called? a = none) (ha : Attended policy (s.act a) made) :
      Attended policy (s.act a) (made ++ (s.called? a).toList) := by
    rwa [hnone, Option.toList_none, List.append_nil]
  cases a with
  | start runtime => exact hquiet rfl (h.start hs runtime)
  | stop => exact hquiet rfl h.stop
  | names component host cluster => exact hquiet rfl (h.names component host cluster)
  | tail base component host cluster => exact hquiet rfl (h.tail base component host cluster)
  | openGate | install | regroup | elapse => exact hquiet rfl (h.congr rfl rfl rfl h.staffed)
  | background b =>
    cases b with
    | move m => exact h.move hs m
    | sweep => exact hquiet rfl h.sweep

theorem Attended.run (h : Attended policy s made) (hs : s.Tidy) (actions : List Action) :
    Attended policy (s.run actions) (made ++ s.calls actions) := by
  induction actions generalizing s made with
  | nil => simpa [calls] using h
  | cons a actions ih =>
    have hrun := ih (h.act hs a) (hs.act a)
    rw [List.append_assoc] at hrun
    exact hrun

theorem sweep?_eq_none_iff : s.sweep? = none ↔ s.sweepAt.any (· ≤ s.now) = false := by
  rw [sweep?]
  cases s.sweepAt with
  | none => simp
  | some due => by_cases hdue : due ≤ s.now <;> simp [hdue]

/-- The schedule takes steps until none can be taken. -/
theorem settled_iff (hs : s.Tidy) : s.Settled ↔ ∀ b, s.step? b = none := by
  have hpool : Pool.next? s.work s.pool = none ↔ ∀ m, s.step? (.move m) = none := by
    rw [Pool.next?_eq_none_iff hs.tickets]
    exact forall_congr' fun _ => Option.map_eq_none_iff.symm
  have hsettled : s.Settled ↔ Pool.next? s.work s.pool = none ∧ s.sweepAt.any (· ≤ s.now) = false := by
    rw [Settled, next?]
    cases Pool.next? s.work s.pool <;> simp
  rw [hsettled, hpool, ← sweep?_eq_none_iff]
  constructor
  · rintro ⟨hmoves, hsweep⟩ (m | -)
    · exact hmoves m
    · exact hsweep
  · exact fun h => ⟨fun m => h (.move m), h .sweep⟩

/-- In a settled state every outstanding fetch is in a call that was made so long ago that its deadline
is still ahead, and of which nothing new can be learnt, or it waits behind as many running fetches as may
run at once. So if a fetch waits, exactly so many run, and if the deadlines of all running fetches have
passed, no fetch is outstanding, no key is marked and every permit is free. -/
theorem attended_of_settled (policy : Policy) (remote : Remote) (actions : List Action)
    (started : ((new policy remote).run actions).phase ≠ .idle)
    (settled : ∀ b, ((new policy remote).run actions).step? b = none) :
    let s₀ := new policy remote
    let s := s₀.run actions
    let most := max 1 (min (max policy.workers 1) Pool.maxPermits)
    (∀ f ∈ s.pool.outstanding,
      (∃ c time, ⟨f, .calling c⟩ ∈ s.pool.active ∧ (time, f) ∈ s₀.calls actions ∧
        c.deadline = time + policy.timeout ∧ s.now < c.deadline ∧
        c.poll s.work.remote s.now s.work.turn = .waiting c) ∨
      (f ∈ s.pool.waiting ∧ s.pool.active.length = most)) ∧
    (∀ t ∈ s.pool.active, ∃ c, t.stage = .calling c) ∧
    (s.pool.waiting ≠ [] → s.pool.active.length = most) ∧
    ((∀ f c, ⟨f, .calling c⟩ ∈ s.pool.active → c.deadline ≤ s.now) →
      s.pool.outstanding = [] ∧ s.markedKeys = [] ∧ s.pool.free = most) := by
  intro s₀ s most
  have hsound : s.Sound := sound_run policy remote actions
  have h : Attended policy s (s₀.calls actions) := (attended_new policy remote).run
    (tidy_new policy remote) actions
  have hstill : Pool.Still s.work s.pool := fun m => Option.map_eq_none_iff.1 (settled (.move m))
  have hstaffed : s.pool.Staffed most := h.staffed started
  have hcalling (t : Task) (ht : t ∈ s.pool.active) : ∃ c, t.stage = .calling c ∧
      s.now < c.deadline ∧ c.poll s.work.remote s.now s.work.turn = .waiting c := by
    obtain ⟨c, hstage, hdue⟩ := hstill.calling hsound.tidy.tickets ht
    exact ⟨c, hstage, Call.poll_of_not_due hdue⟩
  refine ⟨?_, ?_, hstill.length_active hstaffed, ?_⟩
  · intro f hf
    rw [Pool.outstanding_eq, List.mem_append] at hf
    rcases hf with hf | hf
    · obtain ⟨⟨g, stage⟩, ht, rfl⟩ := List.mem_map.1 hf
      obtain ⟨c, rfl, hlt, hpoll⟩ := hcalling _ ht
      obtain ⟨time, hmade, hd⟩ := h.deadlines g c ht
      exact .inl ⟨c, time, ht, hmade, hd, hlt, hpoll⟩
    · exact .inr ⟨hf, hstill.length_active hstaffed (List.ne_nil_of_mem hf)⟩
  · intro t ht
    obtain ⟨c, hstage, -⟩ := hcalling t ht
    exact ⟨c, hstage⟩
  · intro hpassed
    have hactive : s.pool.active = [] := by
      rw [List.eq_nil_iff_forall_not_mem]
      rintro ⟨f, stage⟩ ht
      obtain ⟨c, rfl, hlt, -⟩ := hcalling _ ht
      exact Nat.not_le.2 hlt (hpassed f c ht)
    have hpermits := hstaffed.permits
    rw [hactive, List.length_nil, Nat.add_zero] at hpermits
    have hwaiting : s.pool.waiting = [] := by
      by_contra hw
      have hlength := hstill.length_active hstaffed hw
      rw [hactive, List.length_nil] at hlength
      exact Nat.ne_of_lt (Nat.lt_of_lt_of_le Nat.one_pos (Nat.le_max_left 1 _)) hlength
    have ho : s.pool.outstanding = [] := by rw [Pool.outstanding_eq, hactive, hwaiting]; rfl
    refine ⟨ho, ?_, hpermits⟩
    rw [← List.length_eq_zero_iff, length_markedKeys hsound, ho, List.length_nil]

/-- A remote side that breaks off when it is asked for one host, and never replies for any other. -/
def stalling (broken : String) : Remote where
  controller := ⟨some "controller"⟩
  clusters _ := some
    { plan := fun host _ => { reply := if host = broken then .panic else .silence }
      tailAddress := fun _ _ _ => none }

/-- The only permit goes from a fetch that breaks off to one that gets no reply, and a third fetch waits. -/
theorem attended_of_settled_of_stall :
    let s₀ := new (.ofHours 1) (stalling "lost")
    let steps (moves : List Move) : List Action := moves.map fun m => .background (.move m)
    let actions : List Action := [.start true, .background .sweep, .names "agent" "lost" "east",
      .names "agent" "slow" "east", .names "agent" "far" "east"] ++ steps [.receive, .grant, .resume 0,
        .receive, .resume 0, .grant, .resume 1, .resume 1, .receive]
    let s := s₀.run actions
    s.phase ≠ .idle ∧ s.Settled ∧ s.pool.waiting.map Fetch.ticket = [2] ∧
      s.pool.active.length = 1 := by
  intro s₀ steps actions s
  have hsettled : s.Settled := show s.next? = none by decide +kernel
  have hnone : ∀ b, s.step? b = none :=
    (settled_iff (sound_run (.ofHours 1) (stalling "lost") actions).tidy).1 hsettled
  have hwaiting : s.pool.waiting ≠ [] := by decide +kernel
  have hactive := (attended_of_settled (.ofHours 1) (stalling "lost") actions (by decide +kernel)
    hnone).2.2.1 hwaiting
  refine ⟨by decide +kernel, hsettled, by decide +kernel, ?_⟩
  rw [hactive]
  decide

end LogCatalog.Catalog
