import LogCatalog.Proofs.Catalog.Act
import LogCatalog.Proofs.Pool.Outstanding

/-!
# Traffic through the pool

As long as tickets are in order, an action does one of three things to the outstanding fetches: it
leaves them alone, it queues one for a lookup that nothing else could serve, or it lets one leave. Over a
run the outstanding fetches are therefore those that were queued and have not left.
-/
namespace LogCatalog.Catalog

/-- Outstanding fetches are told apart by tickets that were given to them, there is none before the
start, and no failure count is larger than counts can be. -/
structure Tidy (s : Catalog) : Prop where
  tickets : (s.pool.outstanding.map Fetch.ticket).Nodup
  issued : ∀ f ∈ s.pool.outstanding, f.ticket < s.work.issued
  idle : s.phase = .idle → s.pool.outstanding = []
  failures : ∀ component, s.failuresOf component ≤ Registry.maxFailures

variable {s : Catalog} {a : Action}

theorem tidy_new (policy : Policy) (remote : Remote) : (new policy remote).Tidy where
  tickets := List.nodup_nil
  issued _ hf := nomatch hf
  idle _ := rfl
  failures _ := Nat.zero_le _

/-- What an action does to the outstanding fetches and to what goes with them. -/
inductive Traffic (s : Catalog) (a : Action) : Prop where
  | still (exits : s.exit? a = none) (queues : s.queued? a = none)
      (outstanding : (s.act a).pool.outstanding = s.pool.outstanding)
      (registry : (s.act a).work.registry = s.work.registry)
      (counter : (s.act a).work.counters.queued = s.work.counters.queued)
      (issued : s.work.issued ≤ (s.act a).work.issued)
  | joins (r : Request) (lookup : a = .names r.component r.host r.cluster)
      (running : s.phase = .running) (admits : s.Admits r)
      (exits : s.exit? a = none) (queues : s.queued? a = some (s.fetchFor r))
      (outstanding : (s.act a).pool.outstanding = s.pool.outstanding ++ [s.fetchFor r])
      (registry : (s.act a).work.registry = s.marking r.key)
      (counter : (s.act a).work.counters.queued = s.work.counters.queued + 1)
      (issued : (s.act a).work.issued = s.work.issued + 1)
  | leaves (x : Exit) (exits : s.exit? a = some x) (queues : s.queued? a = none)
      (member : x.fetch ∈ s.pool.outstanding)
      (outstanding : (s.act a).pool.outstanding = s.pool.outstanding.erase x.fetch)
      (closed : Workspace.Closed x s.work (s.act a).work)

theorem queued?_eq_none (h : (s.act a).pool.queue.length ≤ s.pool.queue.length) :
    s.queued? a = none :=
  if_neg (Nat.not_lt.2 h)

/-- An action that touches neither queue nor registry leaves the fetches alone. -/
theorem Traffic.of_same {s' : Catalog} (e : s.act a = s') (exits : s.exit? a = none)
    (outstanding : s'.pool.outstanding = s.pool.outstanding) (queue : s'.pool.queue = s.pool.queue)
    (registry : s'.work.registry = s.work.registry)
    (counter : s'.work.counters.queued = s.work.counters.queued)
    (issued : s'.work.issued = s.work.issued) : Traffic s a := by
  subst e
  have hq : s.queued? a = none := queued?_eq_none (Nat.le_of_eq (congrArg List.length queue))
  exact .still exits hq outstanding registry counter (Nat.le_of_eq issued.symm)

theorem Traffic.of_eq_self (exits : s.exit? a = none) (h : s.act a = s) : Traffic s a :=
  .of_same h exits rfl rfl rfl rfl rfl

theorem traffic_start (h : s.Tidy) (runtime : Bool) : Traffic s (.start runtime) := by
  rcases act_start s runtime with e | ⟨idle, sweepAt, log, e⟩
  · exact .of_eq_self rfl e
  · have ho := h.idle idle
    have hq : s.pool.queue = [] := (List.append_eq_nil_iff.1 ho).2
    exact .of_same e rfl ho.symm hq.symm rfl rfl rfl

theorem traffic_stop (s : Catalog) : Traffic s .stop := by
  by_cases hp : s.phase = .running
  · exact .of_same (act_stop_of_running hp) rfl rfl rfl rfl rfl rfl
  · exact .of_eq_self rfl (act_stop_of_not_running hp)

theorem traffic_names (s : Catalog) (component host cluster : String) :
    Traffic s (.names component host cluster) := by
  by_cases hp : s.phase = .running
  · obtain ⟨answer, -, hserved⟩ := act_names_of_running hp component host cluster
    generalize hs' : s.act (.names component host cluster) = s' at hserved
    cases hserved with
    | hit | turnedAway | joined => exact .of_same hs' rfl rfl rfl rfl rfl rfl
    | queued admits =>
      have hq : s.queued? (.names component host cluster) =
          some (s.fetchFor ⟨component, host, cluster⟩) := by
        rw [queued?, hs', if_pos (by simp)]
        exact List.getLast?_concat
      refine .joins ⟨component, host, cluster⟩ rfl hp admits rfl hq ?_ ?_ ?_ ?_ <;> rw [hs']
      · exact Pool.outstanding_queued _ _ _
      · rfl
    | refused admits =>
      -- the marker was free, so giving it back restores the registry
      have hregistry := Registry.release_insert admits.unmarked
      exact .still rfl (queued?_eq_none (Nat.le_of_eq (by rw [hs']))) (by rw [hs'])
        (by rw [hs']; exact hregistry) (by rw [hs']; rfl) (by rw [hs']; exact Nat.le_succ _)
  · exact .of_eq_self rfl (act_names_of_not_running hp _ _ _)

theorem traffic_tail (s : Catalog) (base component host cluster : String) :
    Traffic s (.tail base component host cluster) := by
  by_cases hp : s.phase = .running
  · obtain ⟨tails, remote, t, ht, e⟩ := act_tail_of_running hp base component host cluster
    have hc : (s.work.counters.record t).queued = s.work.counters.queued := by
      rcases ht with rfl | rfl <;> rfl
    exact .of_same e rfl rfl rfl rfl hc rfl
  · exact .of_eq_self rfl (act_tail_of_not_running hp _ _ _ _)

theorem traffic_sweep (s : Catalog) : Traffic s (.background .sweep) := by
  rcases act_sweep s with e | ⟨sweepAt, log, e⟩
  · exact .of_eq_self rfl e
  · exact .of_same e rfl rfl rfl rfl rfl rfl

theorem traffic_move (h : s.Tidy) (m : Move) : Traffic s (.background (.move m)) := by
  rcases act_move s m with ⟨e, hx⟩ | ⟨work, pool, e, hs⟩
  · exact .of_eq_self hx e
  · have hq : s.queued? (.background (.move m)) = none := by
      apply queued?_eq_none
      rw [e]
      exact hs.queue_length_le
    cases hx : s.exit? (.background (.move m)) with
    | none =>
      rw [hx] at hs
      obtain ⟨ho, -, hr, hc, -, -, hi⟩ := hs.quiet
      refine .still hx hq ?_ ?_ ?_ ?_ <;> rw [e]
      · exact ho
      · exact hr
      · rw [hc]
      · exact Nat.le_of_eq hi.symm
    | some x =>
      rw [hx] at hs
      obtain ⟨hmem, ho⟩ := hs.outstanding_eq h.tickets
      exact .leaves x hx hq hmem (by rw [e]; exact ho) (by rw [e]; exact hs.closed)

/-- No action does anything else to the outstanding fetches. -/
theorem traffic (h : s.Tidy) (a : Action) : Traffic s a := by
  cases a with
  | start runtime => exact traffic_start h runtime
  | stop => exact traffic_stop s
  | names component host cluster => exact traffic_names s component host cluster
  | tail base component host cluster => exact traffic_tail s base component host cluster
  | openGate | install | regroup | elapse => exact .of_same rfl rfl rfl rfl rfl rfl rfl
  | background b =>
    cases b with
    | move m => exact traffic_move h m
    | sweep => exact traffic_sweep s

/-- No action leads back to the time before the start. -/
theorem phase_eq_idle (h : (s.act a).phase = .idle) : s.phase = .idle := by
  rw [phase_act] at h
  rcases s.phase.next_cases a with e | ⟨-, -, e⟩ | ⟨-, -, e⟩
  · exact e.symm.trans h
  · exact nomatch e.symm.trans h
  · exact nomatch e.symm.trans h

/-- Only a failed exit of the component itself changes its count. -/
theorem Traffic.failuresOf_act (h : Traffic s a) (component : String) :
    (s.act a).failuresOf component =
      if ∃ x, s.exit? a = some x ∧ x.isFailure ∧ x.fetch.request.component = component then
        min (s.failuresOf component + 1) Registry.maxFailures
      else s.failuresOf component := by
  cases h with
  | still exits _ _ registry =>
    simp only [failuresOf, registry, exits, reduceCtorEq, false_and, exists_false, if_false]
  | joins r _ _ _ exits _ _ registry =>
    simp only [exits, reduceCtorEq, false_and, exists_false, if_false]
    rw [failuresOf, registry]
    rfl
  | leaves x exits _ _ _ closed =>
    simp only [exits, Option.some.injEq, exists_eq_left']
    rw [failuresOf, closed.registry, Exit.failuresOf_settle]
    rfl

theorem Tidy.act (h : s.Tidy) (a : Action) : (s.act a).Tidy := by
  have htraffic := traffic h a
  have hfailures (component : String) : (s.act a).failuresOf component ≤ Registry.maxFailures := by
    rw [htraffic.failuresOf_act]
    split
    · exact Nat.min_le_right _ _
    · exact h.failures component
  cases htraffic with
  | still _ _ outstanding _ _ issued =>
    refine ⟨?_, ?_, ?_, hfailures⟩
    · rw [outstanding]
      exact h.tickets
    · intro f hf
      rw [outstanding] at hf
      exact Nat.lt_of_lt_of_le (h.issued f hf) issued
    · intro hp
      rw [outstanding, h.idle (phase_eq_idle hp)]
  | joins r _ running _ _ _ outstanding _ _ issued =>
    refine ⟨?_, ?_, ?_, hfailures⟩
    · rw [outstanding]
      exact Pool.nodup_tickets_concat h.tickets h.issued
    · rw [outstanding, issued]
      exact Pool.ticket_lt_concat h.issued
    · intro hp
      exact nomatch (phase_eq_idle hp).symm.trans running
  | leaves x _ _ member outstanding closed =>
    have hsub : (s.act a).pool.outstanding.Sublist s.pool.outstanding := by
      rw [outstanding]
      exact List.erase_sublist
    refine ⟨h.tickets.sublist (hsub.map _), ?_, ?_, hfailures⟩
    · intro f hf
      rw [closed.issued]
      exact h.issued f (hsub.subset hf)
    · intro hp
      rw [h.idle (phase_eq_idle hp)] at member
      exact nomatch member

/-- The fetches before an action and the one it queues are those after it and the one that leaves. -/
theorem Traffic.perm (h : Traffic s a) :
    (s.pool.outstanding ++ (s.queued? a).toList).Perm
      ((s.act a).pool.outstanding ++ (s.exit? a).toList.map Exit.fetch) := by
  cases h with
  | still exits queues outstanding =>
    rw [exits, queues, outstanding]
    exact .refl _
  | joins r _ _ _ exits queues outstanding =>
    rw [exits, queues, outstanding, Option.toList_none, List.map_nil, List.append_nil]
    exact .refl _
  | leaves x exits queues member outstanding =>
    rw [exits, queues, outstanding, Option.toList_none, List.append_nil]
    exact (List.perm_cons_erase member).trans (List.perm_append_singleton _ _).symm

/-- Over a run no fetch is lost and none leaves twice. -/
theorem outstanding_perm (h : s.Tidy) (actions : List Action) :
    (s.pool.outstanding ++ s.arrivals actions).Perm
      ((s.run actions).pool.outstanding ++ (s.exits actions).map Exit.fetch) := by
  induction actions generalizing s with
  | nil => exact .refl _
  | cons a actions ih =>
    have hstep := (traffic h a).perm
    have hrun := ih (h.act a)
    rw [List.perm_iff_count] at *
    intro f
    have hf := hstep f
    have hr := hrun f
    rw [arrivals, exits, run_cons, List.map_append]
    simp only [List.count_append] at *
    omega

/-- A fetch gets the next ticket, and tickets are never taken back. -/
theorem Traffic.issued_le (h : Traffic s a) :
    s.work.issued ≤ (s.act a).work.issued ∧
      ∀ f ∈ s.queued? a, s.work.issued = f.ticket ∧ f.ticket < (s.act a).work.issued := by
  cases h with
  | still _ queues _ _ _ issued =>
    rw [queues]
    exact ⟨issued, nofun⟩
  | joins r _ _ _ _ queues _ _ _ issued =>
    rw [queues, issued]
    refine ⟨Nat.le_succ _, ?_⟩
    rintro f ⟨⟩
    exact ⟨rfl, Nat.lt_succ_self _⟩
  | leaves x _ queues _ _ closed =>
    rw [queues, closed.issued]
    exact ⟨Nat.le_refl _, nofun⟩

theorem issued_le_ticket (h : s.Tidy) (actions : List Action) :
    ∀ f ∈ s.arrivals actions, s.work.issued ≤ f.ticket := by
  induction actions generalizing s with
  | nil => exact nofun
  | cons a actions ih =>
    intro f hf
    obtain ⟨hle, hq⟩ := (traffic h a).issued_le
    rw [arrivals, List.mem_append, Option.mem_toList] at hf
    rcases hf with hf | hf
    · exact Nat.le_of_eq (hq f hf).1
    · exact Nat.le_trans hle (ih (h.act a) f hf)

theorem nodup_arrivals (h : s.Tidy) (actions : List Action) : (s.arrivals actions).Nodup := by
  induction actions generalizing s with
  | nil => exact List.nodup_nil
  | cons a actions ih =>
    obtain ⟨-, hq⟩ := (traffic h a).issued_le
    rw [arrivals, List.nodup_append]
    refine ⟨?_, ih (h.act a), ?_⟩
    · cases s.queued? a with
      | none => exact List.nodup_nil
      | some f => exact List.nodup_singleton f
    · -- the fetch queued first has a smaller ticket than all later ones
      rintro f hf g hg rfl
      have hlt := (hq f (Option.mem_toList.1 hf)).2
      have hle := issued_le_ticket (h.act a) actions f hg
      omega

/-- What is outstanding after a run was outstanding before it or was queued in it, and has not left. -/
theorem mem_outstanding_run (h : s.Tidy) (actions : List Action) (f : Fetch) :
    f ∈ (s.run actions).pool.outstanding ↔
      (f ∈ s.pool.outstanding ∨ f ∈ s.arrivals actions) ∧
        f ∉ (s.exits actions).map Exit.fetch := by
  have hperm := outstanding_perm h actions
  have hd : (s.pool.outstanding ++ s.arrivals actions).Nodup := by
    rw [List.nodup_append]
    refine ⟨List.Nodup.of_map _ h.tickets, nodup_arrivals h actions, ?_⟩
    rintro g hg g' hg' rfl
    have hlt := h.issued g hg
    have hle := issued_le_ticket h actions g hg'
    omega
  have hdisjoint := List.disjoint_of_nodup_append (hperm.nodup_iff.1 hd)
  rw [← List.mem_append, hperm.mem_iff, List.mem_append]
  constructor
  · intro hf
    exact ⟨.inl hf, fun hx => hdisjoint hf hx⟩
  · rintro ⟨hf | hf, hx⟩
    · exact hf
    · exact absurd hf hx

end LogCatalog.Catalog
