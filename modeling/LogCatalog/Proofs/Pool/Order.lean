import LogCatalog.Proofs.Pool.Shift

/-!
# The order of fetches

The fetches that were accepted are those that got a permit followed by those that wait for one, in the
order in which they were accepted. With a single permit a fetch has it alone until it leaves, so calls
are made in this order too, and one after the other.
-/
namespace LogCatalog

namespace Pool

/-- The fetches that have a permit and have not begun. -/
def fresh (p : Pool) : List Fetch :=
  p.active.filterMap fun t =>
    match t.stage with
    | .granted => some t.fetch
    | .calling _ => none

variable {w w' : Workspace} {p p' : Pool} {m : Move} {x? : Option Exit} {t : Task}

theorem Staffed.active_eq (hs : p.Staffed 1) (ht : t ∈ p.active) : p.active = [t] := by
  have hpos := List.length_pos_of_mem ht
  have hpermits := hs.permits
  obtain ⟨u, hu⟩ := List.length_eq_one_iff.1 (show p.active.length = 1 by omega)
  rw [hu, List.mem_singleton] at ht
  rw [hu, ht]

theorem Staffed.retire_eq (hs : p.Staffed 1) (ht : t ∈ p.active) :
    (p.retire t.fetch.ticket).active = [] := by
  rw [retire, hs.active_eq ht]
  simp

theorem Staffed.restage_eq (hs : p.Staffed 1) (ht : t ∈ p.active) (stage : Stage) :
    (p.restage t.fetch.ticket stage).active = [⟨t.fetch, stage⟩] := by
  rw [restage, hs.active_eq ht]
  simp

/-- With a single permit nothing else begins before the fetch that got it has begun or left. -/
theorem Step.fresh_sublist (h : Step w p m x? w' p') (hs : p.Staffed 1) :
    ((p.called? w m).toList ++ p'.fresh).Sublist (p.fresh ++ (p.granted? m).toList) := by
  cases h with
  | receive | leave => simp [called?, granted?, fresh]
  | grant looping held free =>
    have hactive : p.active = [] := by
      have hpermits := hs.permits
      exact List.length_eq_zero_iff.1 (by omega)
    simp [called?, granted?, grant?, looping, held, free, fresh, hactive]
  | begin found reached =>
    have ht := (find?_eq_some found).1
    have hafter := hs.restage_eq ht
    simp only at hafter
    simp [called?, granted?, found, reached, fresh, hafter, hs.active_eq ht]
  | wait found =>
    have ht := (find?_eq_some found).1
    have hafter := hs.restage_eq ht
    simp only at hafter
    simp [called?, granted?, found, fresh, hafter, hs.active_eq ht]
  | turnBack found _ turned =>
    have hafter := hs.retire_eq (find?_eq_some found).1
    simp only at hafter
    simp [called?, granted?, found, turned, fresh, hafter]
  | finish found =>
    have hafter := hs.retire_eq (find?_eq_some found).1
    simp only at hafter
    simp [called?, granted?, found, fresh, hafter]

/-- With a single permit a fetch makes its call when no other fetch has a permit. -/
theorem Staffed.active_of_called? (hs : p.Staffed 1) {f : Fetch} (hc : p.called? w m = some f) :
    p.active = [⟨f, .granted⟩] := by
  cases m with
  | resume ticket =>
    rw [called?] at hc
    split at hc
    · next g hg =>
      split at hc
      · obtain rfl := Option.some.inj hc
        exact hs.active_eq (find?_eq_some hg).1
      · cases hc
    · cases hc
  | _ => cases hc

theorem Step.issued_eq (h : Step w p m x? w' p') : w'.issued = w.issued := by
  cases x? with
  | none => exact h.quiet.2.2.2.2.2.2
  | some x => exact h.closed.issued

end Pool

namespace Shift

/-- What was observed of a shift fits its state. -/
structure Orderly (capacity : Nat) (x : Shift) (accepted granted called : List Fetch)
    (exits : List Exit) : Prop where
  order : accepted = granted ++ x.pool.waiting
  tickets : (accepted.map Fetch.ticket).Nodup
  issued : ∀ f ∈ accepted, f.ticket < x.work.issued
  permits : granted.Perm (exits.map Exit.fetch ++ x.pool.active.map Task.fetch)
  staffed : x.pool.Staffed capacity
  single : capacity = 1 → (called ++ x.pool.fresh).Sublist granted

variable {capacity : Nat} {x : Shift} {accepted granted called : List Fetch} {exits : List Exit}

theorem orderly_start (work : Workspace) (workers : Nat) :
    Orderly (Pool.permits workers) ⟨work, .start workers⟩ [] [] [] [] where
  order := rfl
  tickets := List.nodup_nil
  issued _ hf := nomatch hf
  permits := .nil
  staffed := Pool.staffed_start workers
  single _ := .slnil

theorem Orderly.nodup_outstanding (h : Orderly capacity x accepted granted called exits) :
    (x.pool.outstanding.map Fetch.ticket).Nodup := by
  have hperm : accepted.Perm (exits.map Exit.fetch ++ x.pool.outstanding) := by
    rw [h.order, Pool.outstanding_eq, ← List.append_assoc]
    exact h.permits.append_right _
  have hd := ((hperm.map Fetch.ticket).nodup_iff.1 h.tickets)
  rw [List.map_append] at hd
  exact List.Nodup.of_append_right hd

/-- A shift whose pool has the same fetches, and whose tickets were not taken back. -/
theorem Orderly.congr (h : Orderly capacity x accepted granted called exits) (work : Workspace)
    (hi : x.work.issued ≤ work.issued) (accepting : Bool) :
    Orderly capacity ⟨work, { x.pool with accepting }⟩ accepted granted called exits where
  order := h.order
  tickets := h.tickets
  issued f hf := Nat.lt_of_lt_of_le (h.issued f hf) hi
  permits := h.permits
  staffed := ⟨h.staffed.permits, h.staffed.looping⟩
  single := h.single

theorem Orderly.submit (h : Orderly capacity x accepted granted called exits) (r : Request) :
    Orderly capacity (x.meet (.submit r)) (accepted ++ (x.accepted? (.submit r)).toList) granted called
      exits := by
  rcases x.meet_submit r with ⟨ha, -, hl, hmeet⟩ | ⟨ha, work, hmeet, hi⟩
  · rw [ha, hmeet]
    refine ⟨?_, ?_, ?_, h.permits, ⟨h.staffed.permits, fun _ => hl⟩, h.single⟩
    · rw [h.order, List.append_assoc]
      simp [Pool.waiting]
    · exact Pool.nodup_tickets_concat h.tickets h.issued
    · exact Pool.ticket_lt_concat h.issued
  · rw [ha, hmeet, Option.toList_none, List.append_nil]
    exact h.congr work (by omega) x.pool.accepting

theorem Orderly.move (h : Orderly capacity x accepted granted called exits) (m : Move) :
    Orderly capacity (x.meet (.move m)) accepted (granted ++ (x.granted? (.move m)).toList)
      (called ++ (x.called? (.move m)).toList) (exits ++ (x.exit? (.move m)).toList) := by
  rcases x.meet_move m with ⟨hmeet, hg, hc, he⟩ | ⟨work, pool, hmeet, hs⟩
  · rw [hmeet, hg, hc, he]
    simpa using h
  · have hd := h.nodup_outstanding
    rw [hmeet]
    refine ⟨?_, h.tickets, ?_, ?_, hs.staffed hd h.staffed, ?_⟩
    · rw [h.order, List.append_assoc, ← hs.waiting_eq]
      rfl
    · intro f hf
      exact hs.issued_eq ▸ h.issued f hf
    · rw [List.map_append, List.append_assoc]
      refine (h.permits.append_right _).trans ?_
      rw [List.append_assoc]
      exact (hs.active_perm hd).append_left _
    · rintro rfl
      have hfresh := (hs.fresh_sublist h.staffed).append_left called
      rw [← List.append_assoc, ← List.append_assoc] at hfresh
      exact hfresh.trans ((h.single rfl).append_right _)

theorem Orderly.meet (h : Orderly capacity x accepted granted called exits) (e : Event) :
    Orderly capacity (x.meet e) (accepted ++ (x.accepted? e).toList) (granted ++ (x.granted? e).toList)
      (called ++ (x.called? e).toList) (exits ++ (x.exit? e).toList) := by
  cases e with
  | submit r => simpa [granted?, called?, exit?] using h.submit r
  | move m => simpa [accepted?] using h.move m
  | close =>
    have hclosed := h.congr x.work (Nat.le_refl _) false
    simpa [accepted?, granted?, called?, exit?, Shift.meet, Pool.close] using hclosed
  | meanwhile w =>
    have hwork := h.congr { w with issued := max x.work.issued w.issued } (Nat.le_max_left _ _)
      x.pool.accepting
    simpa [accepted?, granted?, called?, exit?, Shift.meet] using hwork

theorem Orderly.run (h : Orderly capacity x accepted granted called exits) (events : List Event) :
    Orderly capacity (x.run events) (accepted ++ x.accepted events) (granted ++ x.granted events)
      (called ++ x.called events) (exits ++ x.exits events) := by
  induction events generalizing x accepted granted called exits with
  | nil => simpa [Shift.accepted, Shift.granted, Shift.called, Shift.exits, observe] using h
  | cons e events ih =>
    have hrun := ih (h.meet e)
    simp only [List.append_assoc] at hrun
    exact hrun

theorem orderly_run (work : Workspace) (workers : Nat) (events : List Event) :
    Orderly (Pool.permits workers) (run ⟨work, .start workers⟩ events)
      (Shift.accepted ⟨work, .start workers⟩ events) (Shift.granted ⟨work, .start workers⟩ events)
      (Shift.called ⟨work, .start workers⟩ events) (Shift.exits ⟨work, .start workers⟩ events) :=
  (orderly_start work workers).run events

theorem permits_of_le_one {workers : Nat} (h : workers ≤ 1) : Pool.permits workers = 1 := by
  have hle : min workers Pool.maxPermits ≤ 1 := Nat.le_trans (Nat.min_le_left _ _) h
  exact Nat.max_eq_left hle

/-- For any number of workers, and whatever happens, the fetches that got a permit are, in order, the first
of the fetches that were accepted, and those that wait are the rest. None gets a permit twice, those that
have one are those that got one and have not left, and there are never more of them than the workers that
may work at once, which are at least one. With one worker calls are made in the order of acceptance and each
when no other fetch has a permit. Closing the pool takes nothing away: of all fetches accepted until then
those without a permit still wait, in order, and as long as one waits and a permit is free the loop can
take its next step. -/
theorem started_in_order (workers : Nat) (work : Workspace) (events more : List Event) :
    let x₀ : Shift := ⟨work, .start workers⟩
    let x := x₀.run events
    let y := x₀.run (events ++ .close :: more)
    x₀.accepted events = x₀.granted events ++ x.pool.waiting ∧
    (x₀.granted events).Nodup ∧
    (x₀.granted events).Perm ((x₀.exits events).map Exit.fetch ++ x.pool.active.map Task.fetch) ∧
    x.pool.active.length ≤ max 1 (min workers Pool.maxPermits) ∧
    (workers ≤ 1 →
      (x₀.called events).Sublist (x₀.granted events) ∧
      ∀ m f, x.pool.called? x.work m = some f → x.pool.active = [⟨f, .granted⟩]) ∧
    x₀.accepted events = x₀.granted (events ++ .close :: more) ++ y.pool.waiting ∧
    (y.pool.waiting ≠ [] → y.pool.active.length < max 1 (min workers Pool.maxPermits) →
      y.pool.receive?.isSome ∨ y.pool.grant?.isSome) := by
  intro x₀ x y
  have h : Orderly _ x _ _ _ _ := orderly_run work workers events
  have hy : Orderly _ y _ _ _ _ := orderly_run work workers (events ++ .close :: more)
  refine ⟨h.order, ?_, h.permits, ?_, ?_, ?_, hy.staffed.exists_step⟩
  · have hd := List.Nodup.of_map _ h.tickets
    rw [h.order] at hd
    exact List.Nodup.of_append_left hd
  · rw [← Pool.permits, ← h.staffed.permits]
    exact Nat.le_add_left _ _
  · intro hw
    have hone := permits_of_le_one hw
    refine ⟨(List.sublist_append_left _ _).trans (h.single hone), ?_⟩
    intro m f hf
    exact Pool.Staffed.active_of_called? (hone ▸ h.staffed) hf
  · have hclosed : (x.meet .close).observe accepted? more = [] :=
      accepted_of_not_accepting more Bool.false_ne_true
    have haccepted : x₀.accepted (events ++ .close :: more) = x₀.accepted events := by
      rw [Shift.accepted, observe_append, observe, hclosed]
      exact List.append_nil _
    rw [← haccepted]
    exact hy.order

end Shift
end LogCatalog
