import LogCatalog.Proofs.Catalog.Accounts
import LogCatalog.Proofs.Catalog.Address
import LogCatalog.Proofs.Workspace.Agreement

/-!
# Catalogs that agree

Two catalogs agree if callers cannot tell them apart, or if they can do so by lookups of addresses alone.
An action that both take keeps their agreement. A sweep that only one of them takes keeps it as well, and
so does a lookup of an address if addresses do not matter.
-/
namespace LogCatalog

/-- The policy without its sweeps. -/
def Policy.unswept (p : Policy) : Policy := { p with sweepEvery := 0 }

theorem Cache.fresh_keep {α : Type} {c c' : Cache α} {now : Nat} (h : c.fresh now = c'.fresh now)
    (k : Key) (value : Option α) : (c.keep now k value).fresh now = (c'.keep now k value).fresh now := by
  cases value with
  | none => exact h
  | some v => exact fresh_insert h k v

namespace Catalog

/-- Two catalogs with the same policy but for the sweeps, of which callers see the same. Whether they also
see the same of addresses is left open unless the catalogs agree as a `whole`. -/
structure Agree (whole : Prop) (s s' : Catalog) : Prop where
  policy : s.policy.unswept = s'.policy.unswept
  phase : s.phase = s'.phase
  work : s.work.Agree whole s'.work
  tails : whole → s.tails.fresh s.now = s'.tails.fresh s.now
  pool : s.pool = s'.pool

namespace Agree

variable {whole : Prop} {s s' s'' : Catalog}

theorem refl (s : Catalog) : s.Agree whole s := ⟨rfl, rfl, .refl _, fun _ => rfl, rfl⟩

theorem now (h : s.Agree whole s') : s.now = s'.now := h.work.now

theorem names (h : s.Agree whole s') : s.work.names.fresh s.now = s'.work.names.fresh s.now :=
  h.work.names

theorem symm (h : s.Agree whole s') : s'.Agree whole s where
  policy := h.policy.symm
  phase := h.phase.symm
  work := h.work.symm
  tails hw := h.now ▸ (h.tails hw).symm
  pool := h.pool.symm

theorem trans (h : s.Agree whole s') (h' : s'.Agree whole s'') : s.Agree whole s'' where
  policy := h.policy.trans h'.policy
  phase := h.phase.trans h'.phase
  work := h.work.trans h'.work
  tails hw := (h.tails hw).trans (h.now ▸ h'.tails hw)
  pool := h.pool.trans h'.pool

/-- The clock does not go back. -/
theorem update (h : s.Agree whole s') {work work' : Workspace} (hw : work.Agree whole work')
    (hnow : s.now ≤ work.now) (pool : Pool) :
    { s with work, pool }.Agree whole { s' with work := work', pool } where
  policy := h.policy
  phase := h.phase
  work := hw
  tails hwhole := Cache.fresh_later (h.tails hwhole) hnow
  pool := rfl

/-- An update of the workspace alone. -/
theorem rework (h : s.Agree whole s') {work work' : Workspace} (hw : work.Agree whole work')
    (hnow : s.now ≤ work.now) : { s with work }.Agree whole { s' with work := work' } := by
  have hupdate := h.update hw hnow s.pool
  rw [h.pool] at hupdate
  have hs : { s with work, pool := s'.pool } = { s with work } := by rw [← h.pool]
  rwa [hs] at hupdate

theorem running_iff (h : s.Agree whole s') : s.phase = .running ↔ s'.phase = .running := by
  rw [h.phase]

theorem start (h : s.Agree whole s') (runtime : Bool) :
    (s.act (.start runtime)).Agree whole (s'.act (.start runtime)) := by
  by_cases hp : s.phase = .idle
  · cases runtime with
    | false => exact h
    | true =>
      have hworkers := congrArg (fun p : Policy => max p.workers 1) h.policy
      have hhours := congrArg Policy.expireHours h.policy
      rw [act_start_of_idle hp, act_start_of_idle (h.phase ▸ hp),
        show s.workers = s'.workers from hworkers,
        show s.policy.expireHours = s'.policy.expireHours from hhours]
      exact { h with phase := rfl, work := h.work.emit _, pool := rfl }
  · rw [act_start_of_not_idle hp, act_start_of_not_idle (h.phase ▸ hp)]
    exact h

theorem stop (h : s.Agree whole s') : (s.act .stop).Agree whole (s'.act .stop) := by
  by_cases hp : s.phase = .running
  · rw [act_stop_of_running hp, act_stop_of_running (h.running_iff.1 hp)]
    have hcleared := h.work.cache (congrArg (Cache.fresh · s.now) (Cache.clear_eq h.work.names))
    have hlogged := hcleared.emit [.stopped s.pool.unfinished]
    rw [h.pool] at hlogged ⊢
    refine { h with phase := rfl, work := hlogged, tails := fun hw => ?_, pool := rfl }
    exact congrArg (Cache.fresh · s.now) (Cache.clear_eq (h.tails hw))
  · rw [act_stop_of_not_running hp, act_stop_of_not_running (mt h.running_iff.2 hp)]
    exact h

theorem enqueue (h : s.Agree whole s') (r : Request) :
    (s.enqueue r).Agree whole (s'.enqueue r) := by
  obtain ⟨hf, hw⟩ := h.work.issue r
  by_cases ha : s.pool.accepting
  · by_cases hl : s.pool.looping
    · simp only [Catalog.enqueue, ← h.pool, Pool.enqueue_of_looping _ _ ha hl, ← hf]
      exact h.update (hw.count _) (Nat.le_refl _) _
    · simp only [Catalog.enqueue, ← h.pool, Pool.enqueue_of_not_looping _ _ ha hl, ← hf]
      exact h.update (((hw.release _).emit _).emit _) (Nat.le_refl _) _
  · simp only [Catalog.enqueue, ← h.pool, Pool.enqueue_of_not_accepting _ _ ha, ← hf]
    exact h.update ((hw.release _).emit _) (Nat.le_refl _) _

theorem askFor (h : s.Agree whole s') (r : Request) : (s.askFor r).Agree whole (s'.askFor r) := by
  have hmiss := h.work.count .miss
  have hr : (s.work.count .miss).registry = (s'.work.count .miss).registry := hmiss.registry
  simp only [Catalog.askFor, hr]
  cases (s'.work.count .miss).registry.request r.component r.key with
  | mk ruling registry =>
    cases ruling with
    | barred => exact h.rework (hmiss.count _) (Nat.le_refl _)
    | underWay => exact h.rework (hmiss.count _) (Nat.le_refl _)
    | admitted => exact (h.rework (hmiss.register registry) (Nat.le_refl _)).enqueue r

theorem looked (h : s.Agree whole s') (k : Key) (tallies : List Tally) :
    (s.looked k tallies).Agree whole (s'.looked k tallies) := by
  have hcounted (c c' : Counters) (hc : c.Agree whole c') :
      (tallies.foldl Counters.record c).Agree whole (tallies.foldl Counters.record c') := by
    induction tallies generalizing c c' with
    | nil => exact hc
    | cons t tallies ih => exact ih _ _ (hc.record t)
  have hnames : (s.work.names.get s.now k).2.fresh s.now = (s'.work.names.get s'.now k).2.fresh s.now := by
    rw [← h.now]
    exact Cache.fresh_get_congr h.names k
  exact { h.work with names := hnames, counters := hcounted _ _ h.work.counters }

theorem lookUpNames (h : s.Agree whole s') (component host cluster : String) :
    (s.lookUpNames component host cluster).1 = (s'.lookUpNames component host cluster).1 ∧
      (s.lookUpNames component host cluster).2.Agree whole
        (s'.lookUpNames component host cluster).2 := by
  by_cases hp : s.phase = .running
  · have hlook := lookUpNames_of_running hp ⟨component, host, cluster⟩
    have hlook' := lookUpNames_of_running (h.running_iff.1 hp) ⟨component, host, cluster⟩
    rw [← h.now, ← Cache.find?_eq h.names] at hlook'
    rw [hlook, hlook']
    cases s.work.names.find? s.now (Request.key ⟨component, host, cluster⟩) with
    | some names => exact ⟨rfl, h.rework (h.looked _ _) (Nat.le_refl _)⟩
    | none => exact ⟨rfl, (h.rework (h.looked _ _) (Nat.le_refl _)).askFor _⟩
  · rw [lookUpNames_of_not_running hp, lookUpNames_of_not_running (mt h.running_iff.2 hp)]
    exact ⟨rfl, h⟩

theorem lookUpTail (h : s.Agree True s') (base component host cluster : String) :
    (s.lookUpTail base component host cluster).1 = (s'.lookUpTail base component host cluster).1 ∧
      (s.lookUpTail base component host cluster).2.Agree True
        (s'.lookUpTail base component host cluster).2 := by
  by_cases hp : s.phase = .running
  · have hget := Cache.fresh_get_congr (h.tails trivial) (.ofPair component host)
    have haddress := Remote.address?_congr h.work.remote.controller h.work.remote.clusters base component
      host cluster
    rw [lookUpTail_of_running hp, lookUpTail_of_running (h.running_iff.1 hp), ← h.now, ← haddress,
      ← Cache.find?_eq (h.tails trivial)]
    cases s.tails.find? s.now (.ofPair component host) with
    | some uri => exact ⟨rfl, { h with work := h.work.count _, tails := fun _ => hget }⟩
    | none =>
      refine ⟨rfl, { h with
        work := (h.work.count _).call (h.work.remote.addressed cluster), tails := fun _ => ?_ }⟩
      exact Cache.fresh_keep hget _ _
  · rw [lookUpTail_of_not_running hp, lookUpTail_of_not_running (mt h.running_iff.2 hp)]
    exact ⟨rfl, h⟩

theorem move (h : s.Agree whole s') (m : Move) :
    (s.act (.background (.move m))).Agree whole (s'.act (.background (.move m))) := by
  have halike := Pool.alike_move? h.work s.pool m
  simp only [act, step?]
  rw [← h.pool]
  generalize hm : s.pool.move? s.work m = x at halike
  generalize s.pool.move? s'.work m = x' at halike
  cases halike with
  | none => exact h
  | @some next next' hnext =>
    obtain ⟨work, pool⟩ := next
    obtain ⟨work', pool'⟩ := next'
    obtain ⟨hw, rfl⟩ : work.Agree whole work' ∧ pool = pool' := hnext
    exact h.update hw (Nat.le_of_eq (Pool.step_of_move? hm).now_eq.symm) _

end Agree

/-- A sweep goes unnoticed. -/
theorem agree_sweep (s : Catalog) : (s.act (.background .sweep)).Agree True s := by
  simp only [act, step?, sweep?]
  cases s.sweepAt with
  | none => exact .refl s
  | some due =>
    by_cases hd : due ≤ s.now
    · simp only [if_pos hd, Option.getD_some]
      refine ⟨rfl, rfl, ?_, fun _ => Cache.fresh_dropStale _ _, rfl⟩
      have hpurged (n : Nat) : (if n = 0 then [] else [LogEvent.purged n]).filter (!·.isPurged) = [] := by
        split <;> rfl
      refine { Workspace.Agree.refl s.work with names := Cache.fresh_dropStale _ _, log := ?_ }
      simp only [emit, Workspace.emit, List.filter_append, hpurged, List.append_nil]
    · simp only [if_neg hd]
      exact .refl s

/-- Who looks nothing but file names up does not notice a lookup of an address. -/
theorem agree_tail (s : Catalog) (base component host cluster : String) :
    (s.act (.tail base component host cluster)).Agree False s := by
  by_cases hp : s.phase = .running
  · have htally (t : Tally) (ht : t ∈ Tally.ofTails) :
        (s.work.counters.record t).Agree False s.work.counters :=
      ⟨fun u hu => by rw [Counters.get_record, if_neg (by rintro rfl; exact hu ht)], nofun⟩
    have hwork : s.work.Agree False s.work := .refl _
    rw [act, lookUpTail_of_running hp]
    cases s.tails.find? s.now (.ofPair component host) with
    | some uri =>
      refine ⟨rfl, rfl, ?_, nofun, rfl⟩
      exact { hwork with counters := htally .tailHit (by decide) }
    | none =>
      obtain ⟨hframe, hlistings⟩ := s.work.remote.addressed_frame cluster
      refine ⟨rfl, rfl, ?_, nofun, rfl⟩
      refine { hwork with counters := htally .tailMiss (by decide), remote := ?_ }
      rw [hframe]
      exact ⟨rfl, rfl, rfl, rfl, hlistings, nofun⟩
  · rw [act_tail_of_not_running hp]
    exact .refl s

theorem Agree.part {whole : Prop} {s s' : Catalog} (h : s.Agree True s') : s.Agree whole s' where
  policy := h.policy
  phase := h.phase
  work := { h.work with
    remote := { h.work.remote with calls := fun _ => h.work.remote.calls trivial }
    counters := ⟨h.work.counters.get, fun _ => h.work.counters.whole trivial⟩ }
  tails _ := h.tails trivial
  pool := h.pool

theorem Agree.act {whole : Prop} {s s' : Catalog} (h : s.Agree whole s') {a : Action}
    (ha : a.isTail → whole) : (s.act a).Agree whole (s'.act a) := by
  cases a with
  | start runtime => exact h.start runtime
  | stop => exact h.stop
  | names component host cluster => exact (h.lookUpNames component host cluster).2
  | tail base component host cluster =>
    have hw : whole = True := eq_true (ha rfl)
    subst hw
    exact (h.lookUpTail base component host cluster).2
  | openGate gate => exact h.rework (h.work.call (h.work.remote.openGate gate)) (Nat.le_refl _)
  | install name => exact h.rework (h.work.call (h.work.remote.install name).2) (Nat.le_refl _)
  | regroup clusters =>
    refine h.rework (h.work.call ?_) (Nat.le_refl _)
    exact { h.work.remote with clusters := rfl }
  | elapse ms =>
    have hle : s.now ≤ s.now + ms := Nat.le_add_right _ _
    refine h.rework ?_ hle
    exact { h.work with
      now := congrArg (· + ms) h.work.now, names := Cache.fresh_later h.work.names hle }
  | background b =>
    cases b with
    | move m => exact h.move m
    | sweep => exact (s.agree_sweep.part.trans h).trans s'.agree_sweep.part.symm

end Catalog
end LogCatalog
