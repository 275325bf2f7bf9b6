import LogCatalog.Proofs.Catalog.Notice
import LogCatalog.Proofs.Workspace.Course

/-!
# File names and addresses apart

Lookups of file names and lookups of addresses share the keys, the remote side, the counters and the
sweeps, and yet neither kind has any influence on the other. Whoever watches one kind sees the same if all
lookups of the other kind are left out, and with lookups of file names the fetches that they cause.
-/
namespace LogCatalog

/-- Two workspaces that lookups of addresses cannot tell apart. -/
structure Workspace.SameAddresses (w w' : Workspace) : Prop where
  now : w.now = w'.now
  controller : w.remote.controller = w'.remote.controller
  clusters : w.remote.clusters = w'.remote.clusters
  tails : w.remote.calls.tails = w'.remote.calls.tails
  counters : ∀ t ∈ Tally.ofTails, w.counters.get t = w'.counters.get t

namespace Workspace.SameAddresses

variable {w w' w'' : Workspace}

theorem refl (w : Workspace) : w.SameAddresses w := ⟨rfl, rfl, rfl, rfl, fun _ _ => rfl⟩

theorem trans (h : w.SameAddresses w') (h' : w'.SameAddresses w'') : w.SameAddresses w'' where
  now := h.now.trans h'.now
  controller := h.controller.trans h'.controller
  clusters := h.clusters.trans h'.clusters
  tails := h.tails.trans h'.tails
  counters t ht := (h.counters t ht).trans (h'.counters t ht)

theorem symm (h : w.SameAddresses w') : w'.SameAddresses w where
  now := h.now.symm
  controller := h.controller.symm
  clusters := h.clusters.symm
  tails := h.tails.symm
  counters t ht := (h.counters t ht).symm

theorem count (h : w.SameAddresses w') (t : Tally) : (w.count t).SameAddresses (w'.count t) where
  now := h.now
  controller := h.controller
  clusters := h.clusters
  tails := h.tails
  counters u hu := by
    rw [Workspace.count, Workspace.count, Counters.get_record, Counters.get_record, h.counters u hu]

theorem addressed (h : w.SameAddresses w') (cluster : String) :
    { w with remote := w.remote.addressed cluster }.SameAddresses
      { w' with remote := w'.remote.addressed cluster } := by
  have hframe (r : Remote) : (r.addressed cluster).controller = r.controller ∧
      (r.addressed cluster).clusters = r.clusters := by
    rw [(r.addressed_frame cluster).1]
    exact ⟨rfl, rfl⟩
  refine ⟨h.now, ?_, ?_, ?_, h.counters⟩
  · exact ((hframe _).1.trans h.controller).trans (hframe _).1.symm
  · exact ((hframe _).2.trans h.clusters).trans (hframe _).2.symm
  · change (w.remote.addressed cluster).calls.tails = (w'.remote.addressed cluster).calls.tails
    rw [Remote.tails_addressed, Remote.tails_addressed, Remote.reached?_congr h.controller h.clusters,
      h.tails]

end Workspace.SameAddresses

/-- An exit counts nothing for addresses. -/
theorem Exit.get_tally_of_tails (x : Exit) (c : Counters) {t : Tally} (ht : t ∈ Tally.ofTails) :
    (x.tally c).get t = c.get t := by
  rw [Workspace.get_tally, if_neg]
  rintro (⟨rfl, -⟩ | ⟨rfl, -⟩) <;> exact absurd ht (by decide)

namespace Workspace

variable {x : Exit} {w w' : Workspace}

/-- The end of a fetch goes unnoticed by lookups of addresses. -/
theorem Closed.sameAddresses (h : Closed x w w') (hr : w'.remote = w.remote) : w'.SameAddresses w where
  now := h.now
  controller := by rw [hr]
  clusters := by rw [hr]
  tails := by rw [hr]
  counters t ht := by rw [h.counters, x.get_tally_of_tails _ ht]

theorem sameAddresses_contacted (w : Workspace) :
    { w with remote := w.remote.contacted }.SameAddresses w := by
  unfold Remote.contacted
  split <;> exact ⟨rfl, rfl, rfl, rfl, fun _ _ => rfl⟩

theorem sameAddresses_openGate (w : Workspace) (gate : String) :
    { w with remote := w.remote.openGate gate }.SameAddresses w := by
  unfold Remote.openGate
  split <;> exact ⟨rfl, rfl, rfl, rfl, fun _ _ => rfl⟩

theorem sameAddresses_of_begin {f : Fetch} {begun : Outcome ⊕ Call} (h : w.begin f = (begun, w')) :
    w'.SameAddresses w := by
  obtain rfl : w' = (w.begin f).2 := by rw [h]
  have hcontacted := w.sameAddresses_contacted
  have hclosed (o : Outcome) (ho : ∀ n, o ≠ .stored n) :
      ({ w with remote := w.remote.contacted }.close f o).SameAddresses w := by
    have hc := closed_of_no_rows { w with remote := w.remote.contacted } f none o w.remote.contacted
      w.log rfl ho
    exact (hc.sameAddresses (by rw [close_eq])).trans hcontacted
  unfold begin
  rcases w.remote.contact_cases f.request.cluster with ⟨-, -, e⟩ | ⟨-, -, e⟩ | ⟨c, -, e⟩
  · rw [e]
    exact hclosed .noController nofun
  · rw [e]
    exact hclosed .noCluster nofun
  · rw [e]
    exact { hcontacted with }

end Workspace

/-- Whatever the pool does goes unnoticed by lookups of addresses. -/
theorem Pool.Step.sameAddresses {w w' : Workspace} {p p' : Pool} {m : Move} {x? : Option Exit}
    (h : Step w p m x? w' p') : w'.SameAddresses w := by
  cases h with
  | receive | grant | leave => exact .refl _
  | begin found reached => exact Workspace.sameAddresses_of_begin reached
  | wait => exact ⟨rfl, rfl, rfl, rfl, fun _ _ => rfl⟩
  | turnBack found unreached turned => exact Workspace.sameAddresses_of_begin turned
  | finish => exact (w.closed_finish _ _).sameAddresses (by rw [Workspace.finish_eq])

namespace Catalog

/-- Two catalogs that lookups of addresses cannot tell apart. -/
structure SameAddresses (s s' : Catalog) : Prop where
  phase : s.phase = s'.phase
  work : s.work.SameAddresses s'.work
  tails : s.tails.fresh s.now = s'.tails.fresh s.now

/-- Whether an action looks file names up or lets a fetch go on. -/
def Action.isFetching : Action → Bool
  | .names _ _ _ => true
  | .background (.move _) => true
  | _ => false

namespace SameAddresses

variable {s s' s'' : Catalog}

theorem refl (s : Catalog) : s.SameAddresses s := ⟨rfl, .refl _, rfl⟩

theorem now (h : s.SameAddresses s') : s.now = s'.now := h.work.now

theorem trans (h : s.SameAddresses s') (h' : s'.SameAddresses s'') : s.SameAddresses s'' where
  phase := h.phase.trans h'.phase
  work := h.work.trans h'.work
  tails := h.tails.trans (h.now ▸ h'.tails)

theorem symm (h : s.SameAddresses s') : s'.SameAddresses s where
  phase := h.phase.symm
  work := h.work.symm
  tails := h.now ▸ h.tails.symm

theorem lookUpTail (h : s.SameAddresses s') (base component host cluster : String) :
    (s.lookUpTail base component host cluster).1 = (s'.lookUpTail base component host cluster).1 ∧
      (s.lookUpTail base component host cluster).2.SameAddresses
        (s'.lookUpTail base component host cluster).2 := by
  by_cases hp : s.phase = .running
  · have hget := Cache.fresh_get_congr h.tails (.ofPair component host)
    have haddress := Remote.address?_congr h.work.controller h.work.clusters base component host cluster
    rw [lookUpTail_of_running hp, lookUpTail_of_running (h.phase ▸ hp), ← h.now, ← haddress,
      ← Cache.find?_eq h.tails]
    cases s.tails.find? s.now (.ofPair component host) with
    | some uri => exact ⟨rfl, h.phase, h.work.count _, hget⟩
    | none => exact ⟨rfl, h.phase, (h.work.count _).addressed cluster, Cache.fresh_keep hget _ _⟩
  · rw [lookUpTail_of_not_running hp, lookUpTail_of_not_running (h.phase ▸ hp)]
    exact ⟨rfl, h⟩

end SameAddresses

theorem sameAddresses_sweep (s : Catalog) : (s.act (.background .sweep)).SameAddresses s := by
  rcases act_sweep s with e | ⟨sweepAt, log, e⟩
  · rw [e]
    exact .refl s
  · rw [e]
    exact ⟨rfl, ⟨rfl, rfl, rfl, rfl, fun _ _ => rfl⟩, Cache.fresh_dropStale _ _⟩

namespace SameAddresses

variable {s s' : Catalog}

/-- Every action of another kind does the same to both catalogs. -/
theorem act (h : s.SameAddresses s') {a : Action} (ha : a.isFetching = false) :
    (s.act a).SameAddresses (s'.act a) := by
  cases a with
  | start runtime =>
    by_cases hp : s.phase = .idle
    · cases runtime with
      | false => exact h
      | true =>
        rw [act_start_of_idle hp, act_start_of_idle (h.phase ▸ hp)]
        exact ⟨rfl, { h.work with }, h.tails⟩
    · rw [act_start_of_not_idle hp, act_start_of_not_idle (h.phase ▸ hp)]
      exact h
  | stop =>
    by_cases hp : s.phase = .running
    · rw [act_stop_of_running hp, act_stop_of_running (h.phase ▸ hp)]
      exact ⟨rfl, { h.work with }, congrArg (Cache.fresh · s.now) (Cache.clear_eq h.tails)⟩
    · rw [act_stop_of_not_running hp, act_stop_of_not_running (h.phase ▸ hp)]
      exact h
  | names => exact nomatch ha
  | tail base component host cluster => exact (h.lookUpTail base component host cluster).2
  | openGate gate =>
    have hwork := (s.work.sameAddresses_openGate gate).trans h.work
    exact ⟨h.phase, hwork.trans (s'.work.sameAddresses_openGate gate).symm, h.tails⟩
  | install name =>
    refine ⟨h.phase, { h.work with controller := ?_ }, h.tails⟩
    exact congrArg (fun c : ActiveController => (c.install name).2) h.work.controller
  | regroup clusters => exact ⟨h.phase, { h.work with clusters := rfl }, h.tails⟩
  | elapse ms =>
    refine ⟨h.phase, { h.work with now := congrArg (· + ms) h.work.now }, ?_⟩
    exact Cache.fresh_later h.tails (Nat.le_add_right _ _)
  | background b =>
    cases b with
    | move m => exact nomatch ha
    | sweep => exact (s.sameAddresses_sweep.trans h).trans s'.sameAddresses_sweep.symm

theorem reply (h : s.SameAddresses s') {a : Action} (ha : a.isFetching = false) :
    s.reply a = s'.reply a := by
  cases a with
  | start runtime => exact reply_start_congr h.phase runtime
  | names => exact nomatch ha
  | tail base component host cluster =>
    exact congrArg Session.Reply.uri (h.lookUpTail base component host cluster).1
  | install name =>
    exact congrArg (fun c : ActiveController => Session.Reply.flag (c.install name).1) h.work.controller
  | stop | openGate | regroup | elapse | background => rfl

end SameAddresses

/-- Lookups of file names and their fetches go unnoticed by lookups of addresses. -/
theorem sameAddresses_of_isFetching (s : Catalog) {a : Action} (ha : a.isFetching) :
    (s.act a).SameAddresses s := by
  cases a with
  | names component host cluster =>
    by_cases hp : s.phase = .running
    · obtain ⟨answer, -, hserved⟩ := act_names_of_running hp component host cluster
      generalize s.act (.names component host cluster) = s' at hserved
      cases hserved with
      | _ =>
        refine ⟨rfl, ⟨rfl, rfl, rfl, rfl, fun t ht => ?_⟩, rfl⟩
        rcases List.mem_pair.1 ht with rfl | rfl <;> rfl
    · rw [act_names_of_not_running hp]
      exact .refl s
  | background b =>
    cases b with
    | move m =>
      rcases act_move s m with ⟨e, -⟩ | ⟨work, pool, e, hstep⟩
      · rw [e]
        exact .refl s
      · rw [e]
        refine ⟨rfl, hstep.sameAddresses, ?_⟩
        change s.tails.fresh work.now = s.tails.fresh work.now
        rfl
    | sweep => exact nomatch ha
  | _ => exact nomatch ha

/-- What stands, but for what lookups of addresses count. -/
def Standing.ofNames (x : Standing) : Standing :=
  { x with
    counters := { x.counters with tailHits := 0, tailMisses := 0 }
    calls := { listings := x.calls.listings } }

/-- What lookups of addresses leave behind. -/
def Standing.ofAddresses (x : Standing) : Standing where
  phase := x.phase
  marked := []
  failures _ := 0
  unfinished := 0
  counters := { tailHits := x.counters.tailHits, tailMisses := x.counters.tailMisses }
  calls := { tails := x.calls.tails }

def Notice.ofNames (n : Notice) : Notice := { n with after := n.after.ofNames }

def Notice.ofAddresses (n : Notice) : Notice := { n with after := n.after.ofAddresses }

variable {whole : Prop} {s s' : Catalog}

theorem Agree.ofNames (h : s.Agree whole s') : s.standing.ofNames = s'.standing.ofNames := by
  have hget (t : Tally) (ht : t ∉ Tally.ofTails) := h.work.counters.get t ht
  have hcounters : { s.work.counters with tailHits := 0, tailMisses := 0 } =
      { s'.work.counters with tailHits := 0, tailMisses := 0 } := by
    rw [Counters.mk.injEq]
    exact ⟨hget .hit (by decide), hget .miss (by decide), hget .queued (by decide),
      hget .joined (by decide), hget .turnedAway (by decide), hget .completed (by decide),
      hget .failed (by decide), rfl, rfl⟩
  simp only [Standing.ofNames, Catalog.standing, h.phase, h.markedKeys, h.failuresOf, h.unfinishedFetches,
    hcounters, h.work.remote.listings]

theorem SameAddresses.ofAddresses (h : s.SameAddresses s') :
    s.standing.ofAddresses = s'.standing.ofAddresses := by
  have hhits : s.work.counters.tailHits = s'.work.counters.tailHits :=
    h.work.counters .tailHit (by decide)
  have hmisses : s.work.counters.tailMisses = s'.work.counters.tailMisses :=
    h.work.counters .tailMiss (by decide)
  simp only [Standing.ofAddresses, Catalog.standing, h.phase, hhits, hmisses, h.work.tails]

/-- Leaving all lookups of addresses out of a run changes nothing that is noticed of the other actions, but
for what is counted for addresses. Leaving all lookups of file names and the fetches out changes no answer
to a lookup of an address, no address that the remote side is asked for and nothing that is counted for
addresses. -/
theorem watch_apart (policy : Policy) (remote : Remote) (actions : List Action) :
    let s := new policy remote
    let sparesTails (a : Action) : Bool := !a.isTail
    let sparesFetches (a : Action) : Bool := !a.isFetching
    (s.watch sparesTails Notice.ofNames actions =
        s.watch sparesTails Notice.ofNames (actions.filter sparesTails) ∧
      (s.run actions).standing.ofNames = (s.run (actions.filter sparesTails)).standing.ofNames) ∧
    s.watch sparesFetches Notice.ofAddresses actions =
        s.watch sparesFetches Notice.ofAddresses (actions.filter sparesFetches) ∧
      (s.run actions).standing.ofAddresses =
        (s.run (actions.filter sparesFetches)).standing.ofAddresses := by
  intro s sparesTails sparesFetches
  constructor
  · have hwatch := watch_filter (R := Agree False) sparesTails Notice.ofNames ?_ ?_ (.refl s) actions
    · exact ⟨hwatch.1, hwatch.2.ofNames⟩
    · intro t t' a h ha
      cases a with
      | tail base component host cluster => exact (t.agree_tail base component host cluster).trans h
      | _ => cases ha
    · intro t t' a h ha
      have hspared : a.isTail → False := by simpa [sparesTails] using ha
      have hact : (t.act a).Agree False (t'.act a) := h.act hspared
      refine ⟨?_, hact⟩
      simp only [notice, Notice.ofNames, h.reply hspared, h.called?, hact.ofNames]
  · have hwatch := watch_filter (R := SameAddresses) sparesFetches Notice.ofAddresses ?_ ?_ (.refl s)
      actions
    · exact ⟨hwatch.1, hwatch.2.ofAddresses⟩
    · intro t t' a h ha
      have hfetching : a.isFetching := by simpa [sparesFetches] using ha
      exact (sameAddresses_of_isFetching t hfetching).trans h
    · intro t t' a h ha
      have hspared : a.isFetching = false := by simpa [sparesFetches] using ha
      have hcalled (u : Catalog) : u.called? a = none := by
        cases a with
        | background b =>
          cases b with
          | move m => cases hspared
          | sweep => rfl
        | _ => rfl
      have hact := h.act hspared
      refine ⟨?_, hact⟩
      simp only [notice, Notice.ofAddresses, h.reply hspared, hcalled, hact.ofAddresses]

end Catalog
end LogCatalog
