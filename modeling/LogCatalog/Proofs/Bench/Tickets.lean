import LogCatalog.Bench
import LogCatalog.Proofs.Clockwork.Rest
import LogCatalog.Proofs.Pool.Outstanding

/-!
# The fetches of a bench

A fetch of a bench is prepared or outstanding in one of the pools. Whatever commands are performed, fetches
are told apart by their tickets: a command makes a fetch with a new one, hands a prepared fetch to the pool,
or adds nothing to what the bench holds.
-/
namespace LogCatalog.Bench

/-- Fetches are told apart by tickets that were given to them. -/
structure Tidy (b : Bench) : Prop where
  tickets : ∀ p ∈ b.pools, (p.outstanding.map Fetch.ticket).Nodup
  issued : ∀ p ∈ b.pools, ∀ f ∈ p.outstanding, f.ticket < b.work.issued
  prepared : ∀ (id : Nat) (f : Fetch), b.prepared[id]? = some f → f.ticket < b.work.issued
  single : ∀ (id id' : Nat) (f f' : Fetch), b.prepared[id]? = some f → b.prepared[id']? = some f' →
    f.ticket = f'.ticket → id = id'
  apart : ∀ (id : Nat) (f : Fetch), b.prepared[id]? = some f → ∀ p ∈ b.pools, ∀ g ∈ p.outstanding,
    g.ticket ≠ f.ticket

variable {b b' : Bench} {place : Nat} {m : Move}

theorem tidy_new (lifetime timeout : Nat) (remote : Remote) : (new lifetime timeout remote).Tidy where
  tickets _ hp := nomatch hp
  issued _ hp := nomatch hp
  prepared _ _ hf := by simp [new] at hf
  single _ _ _ _ hf := by simp [new] at hf
  apart _ _ _ _ hp := nomatch hp

/-- Nothing comes to be held that was not. -/
theorem Tidy.of_no_new (h : b.Tidy) (hi : b.work.issued ≤ b'.work.issued)
    (hprepared : ∀ (id : Nat) (f : Fetch), b'.prepared[id]? = some f → b.prepared[id]? = some f)
    (hpools : ∀ p' ∈ b'.pools, p'.outstanding = [] ∨
      ∃ p ∈ b.pools, p'.outstanding.Sublist p.outstanding) : b'.Tidy := by
  have hmem (p' : Pool) (hp' : p' ∈ b'.pools) (f : Fetch) (hf : f ∈ p'.outstanding) :
      ∃ p ∈ b.pools, f ∈ p.outstanding := by
    rcases hpools p' hp' with hnil | ⟨p, hp, hs⟩
    · rw [hnil] at hf
      cases hf
    · exact ⟨p, hp, hs.subset hf⟩
  refine ⟨?tickets, ?issued, ?prepared, ?single, ?apart⟩
  case tickets =>
    intro p' hp'
    rcases hpools p' hp' with hnil | ⟨p, hp, hs⟩
    · rw [hnil]
      exact List.nodup_nil
    · exact (hs.map Fetch.ticket).nodup (h.tickets p hp)
  case issued =>
    intro p' hp' f hf
    obtain ⟨p, hp, hf⟩ := hmem p' hp' f hf
    exact Nat.lt_of_lt_of_le (h.issued p hp f hf) hi
  case prepared =>
    intro id f hf
    exact Nat.lt_of_lt_of_le (h.prepared id f (hprepared id f hf)) hi
  case single =>
    intro id id' f f' hf hf'
    exact h.single id id' f f' (hprepared id f hf) (hprepared id' f' hf')
  case apart =>
    intro id f hf p' hp' g hg
    obtain ⟨p, hp, hg⟩ := hmem p' hp' g hg
    exact h.apart id f (hprepared id f hf) p hp g hg

theorem Tidy.onWork (h : b.Tidy) {f : Workspace → Workspace} (hi : (f b.work).issued = b.work.issued) :
    (b.onWork f).Tidy :=
  h.of_no_new (Nat.le_of_eq hi.symm) (fun _ _ hf => hf) fun p hp => .inr ⟨p, hp, .refl _⟩

theorem mem_pools_onPool {f : Pool → Pool} {p' : Pool} (h : p' ∈ (b.onPool f).pools) :
    p' ∈ b.pools ∨ ∃ p, b.pool? = some p ∧ p' = f p := by
  obtain ⟨i, hi⟩ := List.mem_iff_getElem?.1 h
  rw [onPool, List.getElem?_modify] at hi
  obtain ⟨p, hp, rfl⟩ := Option.map_eq_some_iff.1 hi
  by_cases hlast : b.pools.length - 1 = i
  · subst hlast
    rw [if_pos rfl]
    exact .inr ⟨p, by rw [pool?, List.getLast?_eq_getElem?, hp], rfl⟩
  · rw [if_neg hlast]
    exact .inl (List.mem_of_getElem? hp)

/-- A step of one pool, unless it cannot be taken. -/
theorem step_cases (b : Bench) (place : Nat) (m : Move) :
    b.step place m = b ∨ ∃ p x? work p', b.pools[place]? = some p ∧ Pool.Step b.work p m x? work p' ∧
      b.step place m = { b with work, pools := b.pools.set place p' } := by
  rw [step]
  cases hp : b.pools[place]? with
  | none => exact .inl rfl
  | some p =>
    cases hm : Pool.move? b.work p m with
    | none => exact .inl (by simp [hm])
    | some next =>
      obtain ⟨work, p'⟩ := next
      exact .inr ⟨p, _, work, p', rfl, Pool.step_of_move? hm, by simp [hm]⟩

theorem Tidy.step (h : b.Tidy) (place : Nat) (m : Move) : (b.step place m).Tidy := by
  rcases b.step_cases place m with e | ⟨p, x?, work, p', hp, hstep, e⟩
  · rwa [e]
  · have hmem : p ∈ b.pools := List.mem_of_getElem? hp
    obtain ⟨hs, hi⟩ := hstep.outstanding_sublist (h.tickets p hmem)
    rw [e]
    refine h.of_no_new (Nat.le_of_eq hi.symm) (fun _ _ hf => hf) fun q hq => .inr ?_
    rcases List.mem_or_eq_of_mem_set hq with hq | rfl
    · exact ⟨q, hq, .refl _⟩
    · exact ⟨p, hmem, hs⟩

theorem Tidy.elapse (h : b.Tidy) (ms : Nat) : (clockwork.elapse b ms).Tidy :=
  h.onWork (f := fun w => { w with now := w.now + ms }) rfl

theorem clockwork_next?_eq_some_iff {next : Bench} :
    clockwork.next? b = some next ↔ ∃ place m, b.next? = some (place, m) ∧ b.step place m = next := by
  simp [clockwork]

theorem Tidy.next (h : b.Tidy) {next : Bench} (hn : clockwork.next? b = some next) : next.Tidy := by
  obtain ⟨place, m, -, rfl⟩ := clockwork_next?_eq_some_iff.1 hn
  exact h.step place m

theorem Tidy.settle (h : b.Tidy) : b.settle.Tidy :=
  Clockwork.settleWithin_induction (fun _ _ hb hn => hb.next hn) h _

theorem Tidy.advance (h : b.Tidy) (ms : Nat) : (b.advance ms).Tidy := by
  unfold Bench.advance
  split
  · exact Clockwork.advance_induction (fun _ _ hb hn => hb.next hn) (fun _ ms hb => hb.elapse ms) h ms
  · exact h

theorem Tidy.followWithin (h : b.Tidy) (n : Nat) (f : Fetch) (c : Call) :
    (Bench.followWithin n b f c).2.Tidy := by
  induction n generalizing b c with
  | zero => exact h
  | succ n ih =>
    have hlook (w : Workspace) : (w.look f c).2.issued = w.issued := by
      unfold Workspace.look
      split
      · rfl
      · exact (w.closed_finish f _).issued
    have hi : (if c.isDue b.work.remote b.work.now then b.work.look f c else (.inr c, b.work)).2.issued =
        b.work.issued := by
      split
      · exact hlook b.work
      · rfl
    rw [Bench.followWithin]
    split
    · next outcome work e =>
      rw [e] at hi
      exact h.onWork (f := fun _ => work) hi
    · next c work e =>
      rw [e] at hi
      have hsettled := (h.onWork (f := fun _ => work) hi).settle
      simp only
      split
      · exact ih (hsettled.elapse _) c
      · exact hsettled

theorem Tidy.runFetch (h : b.Tidy) (f : Fetch) : (b.runFetch f).2.Tidy := by
  unfold Bench.runFetch
  rcases b.work.begin_cases f with ⟨o, remote, -, e⟩ | ⟨plan, remote, e⟩
  · rw [e]
    exact h.onWork (f := fun w => { w with remote }.close f o) (Workspace.close_frame _ f o).2.2
  · rw [e]
    exact (h.onWork (f := fun w => { w with remote, turn := w.turn + 1 }) rfl).followWithin _ f _

theorem getElem?_erase {id id' : Nat} {f : Fetch} (h : (b.prepared.erase id)[id']? = some f) :
    id ≠ id' ∧ b.prepared[id']? = some f := by
  rw [Std.ExtTreeMap.getElem?_erase] at h
  simpa [compare_eq_iff_eq] using h

theorem Tidy.erase (h : b.Tidy) (id : Nat) : Tidy { b with prepared := b.prepared.erase id } :=
  h.of_no_new (Nat.le_refl _) (fun _ _ hf => (getElem?_erase hf).2) fun p hp => .inr ⟨p, hp, .refl _⟩

theorem Tidy.run (h : b.Tidy) (id : Nat) : (b.run id).2.Tidy := by
  unfold Bench.run take
  split
  · cases b.prepared[id]? with
    | none => exact h.erase id
    | some f => exact (h.erase id).runFetch f
  · exact h

theorem Tidy.drop (h : b.Tidy) (id : Nat) : (b.drop id).2.Tidy := by
  unfold Bench.drop take
  cases b.prepared[id]? with
  | none => exact h.erase id
  | some f => exact (h.erase id).onWork (f := (·.release f.key)) rfl

theorem Tidy.onPool (h : b.Tidy) {f : Pool → Pool}
    (hf : ∀ p, b.pool? = some p → (f p).outstanding = p.outstanding) : (b.onPool f).Tidy := by
  refine h.of_no_new (Nat.le_refl _) (fun _ _ hp => hp) fun p' hp' => .inr ?_
  rcases mem_pools_onPool hp' with hp | ⟨p, hp, rfl⟩
  · exact ⟨p', hp, .refl _⟩
  · rw [hf p hp]
    exact ⟨p, List.mem_of_getLast? hp, .refl _⟩

theorem Tidy.start (h : b.Tidy) (workers : Nat) : (b.start workers).2.Tidy := by
  unfold Bench.start
  split
  · refine (h.onPool (f := Pool.close) fun _ _ => rfl).of_no_new (Nat.le_refl _) (fun _ _ hf => hf) ?_
    intro p hp
    rcases List.mem_append.1 hp with hp | hp
    · exact .inr ⟨p, hp, .refl _⟩
    · rw [List.mem_singleton.1 hp]
      exact .inl rfl
  · exact h

theorem Tidy.close (h : b.Tidy) : b.close.2.Tidy := by
  unfold Bench.close
  split
  · exact h
  · exact (h.onPool (f := Pool.close) fun _ _ => rfl).of_no_new (Nat.le_refl _) (fun _ _ hf => hf)
      fun p hp => .inr ⟨p, hp, .refl _⟩

theorem issued_collapseAll (w : Workspace) (pools : List Pool) : (collapseAll w pools).1.issued = w.issued := by
  induction pools generalizing w with
  | nil => rfl
  | cons p pools ih =>
    have hp : (p.collapse w).1.issued = w.issued := by rw [Pool.collapse_fst]
    exact (ih (p.collapse w).1).trans hp

theorem outstanding_collapseAll {w : Workspace} {pools : List Pool} {p : Pool}
    (h : p ∈ (collapseAll w pools).2) : p.outstanding = [] := by
  induction pools generalizing w with
  | nil => cases h
  | cons q pools ih =>
    rcases List.mem_cons.1 h with rfl | h
    · rfl
    · exact ih h

theorem Tidy.dropRuntime (h : b.Tidy) : b.dropRuntime.Tidy :=
  h.of_no_new (Nat.le_of_eq (issued_collapseAll _ _).symm) (fun _ _ hf => hf)
    fun _ hp => .inl (outstanding_collapseAll hp)

/-- A fetch that was just made is prepared. -/
theorem Tidy.insert (h : b.Tidy) (id : Nat) {f : Fetch} (hf : f.ticket = b.work.issued) {work : Workspace}
    (hi : work.issued = b.work.issued + 1) :
    Tidy { b with work, prepared := b.prepared.insert id f } := by
  have hcases (id' : Nat) (g : Fetch) (hg : (b.prepared.insert id f)[id']? = some g) :
      id' = id ∧ g = f ∨ b.prepared[id']? = some g := by
    rw [Std.ExtTreeMap.getElem?_insert] at hg
    split at hg
    · next e => exact .inl ⟨(compare_eq_iff_eq.1 e).symm, (Option.some.inj hg).symm⟩
    · exact .inr hg
  have hnew : f.ticket < work.issued := by omega
  refine ⟨h.tickets, ?issued, ?prepared, ?single, ?apart⟩
  case issued =>
    intro p hp g hg
    exact Nat.lt_trans (h.issued p hp g hg) (hf ▸ hnew)
  case prepared =>
    intro id' g hg
    rcases hcases id' g hg with ⟨-, rfl⟩ | hold
    · exact hnew
    · exact Nat.lt_trans (h.prepared id' g hold) (hf ▸ hnew)
  case single =>
    intro i j g g' hg hg' e
    rcases hcases i g hg with ⟨rfl, rfl⟩ | hold <;> rcases hcases j g' hg' with ⟨rfl, rfl⟩ | hold'
    · rfl
    · have hlt := h.prepared j g' hold'
      omega
    · have hlt := h.prepared i g hold
      omega
    · exact h.single i j g g' hold hold' e
  case apart =>
    intro id' g hg p hp g' hg'
    rcases hcases id' g hg with ⟨-, rfl⟩ | hold
    · have hlt := h.issued p hp g' hg'
      omega
    · exact h.apart id' g hold p hp g' hg'

theorem Tidy.prepare (h : b.Tidy) (id : Nat) (request : Request) : (b.prepare id request).2.Tidy := by
  unfold Bench.prepare
  split
  · refine h.insert id rfl ?_
    split <;> rfl
  · exact h

/-- A prepared fetch joins the pool that takes fetches. -/
theorem Tidy.join (h : b.Tidy) {id : Nat} {f : Fetch} (hf : b.prepared[id]? = some f) {p p' : Pool}
    (hp : b.pool? = some p) (ho : p'.outstanding = p.outstanding ++ [f]) :
    Tidy ({ b with prepared := b.prepared.erase id }.onPool fun _ => p') := by
  have hlast : p ∈ b.pools := List.mem_of_getLast? hp
  have hpools (q : Pool)
      (hq : q ∈ ({ b with prepared := b.prepared.erase id }.onPool fun _ => p').pools) :
      q ∈ b.pools ∨ q = p' := by
    rcases mem_pools_onPool hq with hq | ⟨-, -, rfl⟩
    · exact .inl hq
    · exact .inr rfl
  have hnew : ∀ g ∈ p'.outstanding, g ∈ p.outstanding ∨ g = f := by
    intro g hg
    rw [ho, List.mem_append, List.mem_singleton] at hg
    exact hg
  refine ⟨?tickets, ?issued, ?prepared, ?single, ?apart⟩
  case tickets =>
    intro q hq
    rcases hpools q hq with hq | rfl
    · exact h.tickets q hq
    · rw [ho, List.map_append, List.nodup_append]
      refine ⟨h.tickets p hlast, List.nodup_singleton _, ?_⟩
      rintro t ht u hu rfl
      obtain ⟨g, hg, rfl⟩ := List.mem_map.1 ht
      exact h.apart id f hf p hlast g hg (List.mem_singleton.1 hu)
  case issued =>
    intro q hq g hg
    rcases hpools q hq with hq | rfl
    · exact h.issued q hq g hg
    · rcases hnew g hg with hg | rfl
      · exact h.issued p hlast g hg
      · exact h.prepared id g hf
  case prepared =>
    intro id' g hg
    exact h.prepared id' g (getElem?_erase hg).2
  case single =>
    intro i j g g' hg hg'
    exact h.single i j g g' (getElem?_erase hg).2 (getElem?_erase hg').2
  case apart =>
    intro id' g hg q hq g' hg'
    obtain ⟨hne, hkept⟩ := getElem?_erase hg
    rcases hpools q hq with hq | rfl
    · exact h.apart id' g hkept q hq g' hg'
    · rcases hnew g' hg' with hg' | rfl
      · exact h.apart id' g hkept p hlast g' hg'
      · exact fun e => hne (h.single id id' g' g hf hkept e)

theorem Tidy.enqueue (h : b.Tidy) (id : Nat) : (b.enqueue id).2.Tidy := by
  unfold Bench.enqueue take
  cases hf : b.prepared[id]? with
  | none => exact h.erase id
  | some f =>
    cases hp : b.pool? with
    | none => exact (h.erase id).onWork (f := (·.release f.key)) rfl
    | some p =>
      have hkept (work : Workspace) (hi : work.issued = b.work.issued) :
          Tidy ({ b with work, prepared := b.prepared.erase id }.onPool fun _ => p) := by
        refine ((h.erase id).onWork (f := fun _ => work) hi).onPool fun q hq => ?_
        rw [Option.some.inj (hp.symm.trans hq)]
      by_cases ha : p.accepting
      · by_cases hl : p.looping
        · simp only [Pool.enqueue_of_looping _ f ha hl]
          exact h.join hf hp (Pool.outstanding_queued p f _)
        · simp only [Pool.enqueue_of_not_looping _ f ha hl]
          exact hkept _ rfl
      · simp only [Pool.enqueue_of_not_accepting _ f ha]
        exact hkept _ rfl

theorem Tidy.perform (h : b.Tidy) (c : Command) : (b.perform c).2.Tidy := by
  cases c with
  | prepare id request => exact h.prepare id request
  | run id =>
    have hrun := h.run id
    simp only [Bench.perform]
    split <;> next e => rwa [e] at hrun
  | drop id => exact h.drop id
  | start workers => exact h.start workers
  | enqueue id =>
    have henqueue := h.enqueue id
    simp only [Bench.perform]
    split <;> next e => rwa [e] at henqueue
  | close => exact h.close
  | settle =>
    simp only [Bench.perform]
    split
    · exact h.settle
    · exact h
  | advance ms => exact h.advance ms
  | openGate gate => exact h.onWork (f := fun w => { w with remote := w.remote.openGate gate }) rfl
  | install controller =>
    exact h.onWork (f := fun w => { w with remote := (w.remote.install controller).2 }) rfl
  | clear => exact h.onWork (f := fun w => { w with names := w.names.clear }) rfl
  | dropStale => exact h.onWork (f := fun w => { w with names := (w.names.dropStale b.work.now).2 }) rfl
  | get component host =>
    exact h.onWork (f := fun w =>
      { w with names := (b.work.names.get b.work.now (.ofPair component host)).2 }) rfl
  | put component host names =>
    exact h.onWork (f := fun w =>
      { w with names := w.names.insert w.now (.ofPair component host) (Std.ExtTreeSet.ofList names) }) rfl
  | fail component =>
    let registry := b.work.registry.addFailure component
    exact h.onWork (f := fun w => { w with registry }.emit (registry.warnings component)) rfl
  | dropRuntime => exact h.dropRuntime

theorem Tidy.performAll (h : b.Tidy) (commands : List Command) :
    ∀ step ∈ b.performAll commands, step.bench.Tidy := by
  induction commands generalizing b with
  | nil => exact fun _ hstep => nomatch hstep
  | cons c commands ih =>
    have hnext := (h.onWork (f := fun w => { w with log := [] }) rfl).perform c
    intro step hstep
    rcases List.mem_cons.1 hstep with rfl | hstep
    · exact hnext
    · exact ih hnext step hstep

end LogCatalog.Bench
