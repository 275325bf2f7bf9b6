import Mathlib.Data.List.Nodup
import LogCatalog.Proofs.Pool.Step

/-!
# Outstanding fetches

The outstanding fetches of a pool are those it accepted and that have not left it. A fetch joins them at
the end, an exit takes exactly its own fetch away, and no other step touches them. The books of a pool
are in order when its outstanding fetches are told apart by their tickets and by their keys, the marked
keys are their keys, and they are counted.
-/
namespace LogCatalog.Pool

variable {w w' : Workspace} {p p' : Pool} {m : Move} {x : Exit} {f : Fetch}

theorem map_fetch_restage (p : Pool) (ticket : Nat) (stage : Stage) :
    (p.restage ticket stage).active.map Task.fetch = p.active.map Task.fetch := by
  have hf : Task.fetch ∘ (fun t => if t.fetch.ticket = ticket then ⟨t.fetch, stage⟩ else t) =
      Task.fetch := by
    funext t
    by_cases h : t.fetch.ticket = ticket <;> simp [h]
  rw [restage, List.map_map, hf]

theorem mem_outstanding {t : Task} (ht : t ∈ p.active) : t.fetch ∈ p.outstanding := by
  rw [outstanding, List.append_assoc]
  exact List.mem_append_left _ (List.mem_map_of_mem ht)

theorem outstanding_restage (p : Pool) (ticket : Nat) (stage : Stage) :
    (p.restage ticket stage).outstanding = p.outstanding := by
  rw [outstanding, map_fetch_restage]
  rfl

theorem outstanding_queued (p : Pool) (f : Fetch) (n : Nat) :
    outstanding { p with queue := p.queue ++ [f], unfinished := n } = p.outstanding ++ [f] := by
  simp [outstanding]

/-- A fetch with a larger ticket than all others has a ticket of its own. -/
theorem nodup_tickets_concat {fs : List Fetch} (hd : (fs.map Fetch.ticket).Nodup)
    (hlt : ∀ g ∈ fs, g.ticket < f.ticket) : ((fs ++ [f]).map Fetch.ticket).Nodup := by
  rw [List.map_append, List.nodup_append]
  refine ⟨hd, List.nodup_singleton _, ?_⟩
  rintro t ht u hu rfl
  obtain ⟨g, hg, e⟩ := List.mem_map.1 ht
  exact Nat.ne_of_lt (hlt g hg) (e.trans (List.mem_singleton.1 hu))

theorem ticket_lt_concat {fs : List Fetch} (hlt : ∀ g ∈ fs, g.ticket < f.ticket) :
    ∀ g ∈ fs ++ [f], g.ticket < f.ticket + 1 := by
  intro g hg
  rcases List.mem_append.1 hg with hg | hg
  · exact Nat.lt_succ_of_lt (hlt g hg)
  · rw [List.mem_singleton.1 hg]
    exact Nat.lt_succ_self _

theorem enqueue_of_looping (w : Workspace) (f : Fetch) (ha : p.accepting) (hl : p.looping) :
    p.enqueue w f =
      (true, w, { p with queue := p.queue ++ [f], unfinished := p.unfinished + 1 }) := by
  simp [enqueue, ha, hl]

theorem enqueue_of_not_looping (w : Workspace) (f : Fetch) (ha : p.accepting)
    (hl : ¬p.looping) : p.enqueue w f = (false, (w.release f.key).emit [.queueClosed], p) := by
  simp [enqueue, ha, hl]

theorem enqueue_of_not_accepting (w : Workspace) (f : Fetch) (ha : ¬p.accepting) :
    p.enqueue w f = (false, w.release f.key, p) := by
  simp [enqueue, ha]

/-- All steps but exits leave the outstanding fetches and what fetches share as they are. -/
theorem Step.quiet (h : Step w p m none w' p') :
    p'.outstanding = p.outstanding ∧ p'.unfinished = p.unfinished ∧ w'.registry = w.registry ∧
      w'.counters = w.counters ∧ w'.names = w.names ∧ w'.now = w.now ∧ w'.issued = w.issued := by
  cases h with
  | receive looping held queue => simp [outstanding, held, queue]
  | grant looping held free => simp [outstanding, held]
  | leave => exact ⟨rfl, rfl, rfl, rfl, rfl, rfl, rfl⟩
  | begin => exact ⟨outstanding_restage p _ _, rfl, rfl, rfl, rfl, rfl, rfl⟩
  | wait => exact ⟨outstanding_restage p _ _, rfl, rfl, rfl, rfl, rfl, rfl⟩

/-- The clock stands still. -/
theorem Step.now_eq {x? : Option Exit} (h : Step w p m x? w' p') : w'.now = w.now := by
  cases x? with
  | none => exact h.quiet.2.2.2.2.2.1
  | some x => exact h.closed.now

/-- A pool without a loop and without outstanding fetches takes no step. -/
theorem Step.looping_or_ne_nil {x? : Option Exit} (h : Step w p m x? w' p') :
    p.looping ∨ p.outstanding ≠ [] := by
  cases h with
  | receive looping | grant looping | leave looping => exact .inl looping
  | begin found | wait found | turnBack found | finish found =>
    exact .inr (List.ne_nil_of_mem (mem_outstanding (find?_eq_some found).1))

/-- The pool takes fetches as before, and its loop stays as long as it does. -/
theorem Step.accepting {x? : Option Exit} (h : Step w p m x? w' p') :
    p'.accepting = p.accepting ∧ (p.accepting → p'.looping = p.looping) := by
  cases h with
  | leave looping closed => exact ⟨rfl, fun ha => absurd ha closed⟩
  | _ => exact ⟨rfl, fun _ => rfl⟩

/-- The fetches behind an active one have other tickets. -/
theorem ticket_ne_of_waiting (hd : (p.outstanding.map Fetch.ticket).Nodup) {t : Task}
    (ht : t ∈ p.active) (hf : f ∈ p.held.toList ++ p.queue) : f.ticket ≠ t.fetch.ticket := by
  rw [outstanding, List.append_assoc, List.map_append] at hd
  intro e
  have ha : t.fetch.ticket ∈ (p.active.map Task.fetch).map Fetch.ticket :=
    List.mem_map_of_mem (List.mem_map_of_mem ht)
  have hw : t.fetch.ticket ∈ (p.held.toList ++ p.queue).map Fetch.ticket :=
    e ▸ List.mem_map_of_mem hf
  exact List.disjoint_of_nodup_append hd ha hw

/-- The queue grows by no step. -/
theorem Step.queue_length_le {x? : Option Exit} (h : Step w p m x? w' p') :
    p'.queue.length ≤ p.queue.length := by
  cases h with
  | receive looping held queue =>
    rw [queue]
    exact Nat.le_succ _
  | _ => exact Nat.le_refl _

/-- Retiring a task takes its fetch away and no other. -/
theorem outstanding_retire (hd : (p.outstanding.map Fetch.ticket).Nodup) {t : Task}
    (ht : t ∈ p.active) : (p.retire t.fetch.ticket).outstanding = p.outstanding.erase t.fetch := by
  have hmem : t.fetch ∈ p.outstanding := mem_outstanding ht
  have hwaiting : (p.held.toList ++ p.queue).filter (fun f => f.ticket != t.fetch.ticket) =
      p.held.toList ++ p.queue := by
    rw [List.filter_eq_self]
    intro f hf
    simpa using ticket_ne_of_waiting hd ht hf
  have hfilter : (p.retire t.fetch.ticket).outstanding =
      p.outstanding.filter fun f => f.ticket != t.fetch.ticket := by
    conv_rhs => rw [outstanding, List.append_assoc, List.filter_append, hwaiting, List.filter_map]
    rw [outstanding, List.append_assoc]
    rfl
  rw [hfilter, (List.Nodup.of_map _ hd).erase_eq_filter]
  apply List.filter_congr
  intro f hf
  by_cases e : f = t.fetch
  · rw [e, bne_self_eq_false, bne_self_eq_false]
  · have hne : f.ticket ≠ t.fetch.ticket := fun h => e (List.inj_on_of_nodup_map hd hf hmem h)
    rw [bne_iff_ne.2 e, bne_iff_ne.2 hne]

/-- An exit takes its fetch away and no other. -/
theorem Step.outstanding_eq (h : Step w p m (some x) w' p') (hd : (p.outstanding.map Fetch.ticket).Nodup) :
    x.fetch ∈ p.outstanding ∧ p'.outstanding = p.outstanding.erase x.fetch := by
  obtain ⟨t, ht, hx, rfl⟩ := h.exists_active
  rw [← hx]
  exact ⟨mem_outstanding ht, outstanding_retire hd ht⟩

/-- No step makes a fetch or lets one join. -/
theorem Step.outstanding_sublist {x? : Option Exit} (h : Step w p m x? w' p')
    (hd : (p.outstanding.map Fetch.ticket).Nodup) :
    p'.outstanding.Sublist p.outstanding ∧ w'.issued = w.issued := by
  cases x? with
  | none =>
    obtain ⟨ho, -, -, -, -, -, hi⟩ := h.quiet
    rw [ho]
    exact ⟨.refl _, hi⟩
  | some x =>
    rw [(h.outstanding_eq hd).2]
    exact ⟨List.erase_sublist, h.closed.issued⟩

/-- A loss of the runtime gives back the markers of the outstanding fetches. -/
theorem collapse_fst (w : Workspace) (p : Pool) :
    (p.collapse w).1 =
      { w with registry := (p.outstanding.map Fetch.key).foldl Registry.release w.registry } := by
  rw [collapse]
  generalize p.outstanding = fs
  induction fs generalizing w with
  | nil => rfl
  | cons f fs ih => exact ih (w.release f.key)

/-- The books of a pool and its workspace are in order. -/
structure Balanced (w : Workspace) (p : Pool) : Prop where
  keys : (p.outstanding.map Fetch.key).Nodup
  marks : ∀ k, w.registry.isMarked k ↔ k ∈ p.outstanding.map Fetch.key
  unfinished : p.unfinished = p.outstanding.length

/-- The books of a pool without outstanding fetches. -/
theorem balanced_of_outstanding_eq_nil (ho : p.outstanding = []) (hu : p.unfinished = 0)
    (hm : ∀ k, ¬w.registry.isMarked k) : Balanced w p where
  keys := by simp [ho]
  marks k := by simp [ho, hm k]
  unfinished := by rw [hu, ho]; rfl

/-- The books read nothing but the outstanding fetches, their number and the marks. -/
theorem Balanced.congr (h : Balanced w p) (ho : p'.outstanding = p.outstanding)
    (hu : p'.unfinished = p.unfinished) (hr : w'.registry = w.registry) : Balanced w' p' where
  keys := ho ▸ h.keys
  marks k := by rw [hr, ho, h.marks]
  unfinished := by rw [hu, ho, h.unfinished]

/-- A fetch joins when its key was marked for it. -/
theorem Balanced.join (h : Balanced w p) (ho : p'.outstanding = p.outstanding ++ [f])
    (hu : p'.unfinished = p.unfinished + 1) (hk : ¬w.registry.isMarked f.key)
    (hm : ∀ k, w'.registry.isMarked k ↔ f.key = k ∨ w.registry.isMarked k) : Balanced w' p' where
  keys := by
    rw [ho, List.map_append, List.nodup_append]
    refine ⟨h.keys, List.nodup_singleton _, ?_⟩
    rintro a ha b hb rfl
    simp only [List.map_cons, List.map_nil, List.mem_singleton] at hb
    exact hk (hb ▸ (h.marks _).2 ha)
  marks k := by
    rw [hm, h.marks, ho, List.map_append, List.mem_append, List.map_cons, List.map_nil,
      List.mem_singleton, or_comm, eq_comm]
  unfinished := by rw [hu, ho, h.unfinished, List.length_append, List.length_singleton]

/-- The marker that an exit gives back is that of the fetch that it takes away. -/
theorem Balanced.exit (h : Balanced w p) (hd : (p.outstanding.map Fetch.ticket).Nodup)
    (hs : Step w p m (some x) w' p') : Balanced w' p' := by
  obtain ⟨hmem, ho⟩ := hs.outstanding_eq hd
  have hperm := List.perm_cons_erase hmem
  have hkeys : ((x.fetch :: p.outstanding.erase x.fetch).map Fetch.key).Nodup :=
    (hperm.map Fetch.key).nodup_iff.1 h.keys
  rw [List.map_cons, List.nodup_cons] at hkeys
  refine ⟨?_, ?_, ?_⟩
  · rw [ho]
    exact hkeys.2
  · intro k
    rw [hs.closed.registry, Exit.isMarked_settle, h.marks, ho, (hperm.map Fetch.key).mem_iff,
      List.map_cons, List.mem_cons]
    constructor
    · rintro ⟨hne, rfl | hk⟩
      · exact absurd rfl hne
      · exact hk
    · -- no other outstanding fetch has the key of the one that left
      intro hk
      exact ⟨fun e => hkeys.1 (e ▸ hk), .inr hk⟩
  · obtain ⟨t, ht, hx, rfl⟩ := hs.exists_active
    rw [ho, List.length_erase_of_mem hmem, ← h.unfinished]
    rfl

theorem Balanced.step {x? : Option Exit} (h : Balanced w p)
    (hd : (p.outstanding.map Fetch.ticket).Nodup) (hs : Step w p m x? w' p') : Balanced w' p' := by
  cases x? with
  | none =>
    obtain ⟨ho, hu, hr, -⟩ := hs.quiet
    exact h.congr ho hu hr
  | some x => exact h.exit hd hs

end LogCatalog.Pool
