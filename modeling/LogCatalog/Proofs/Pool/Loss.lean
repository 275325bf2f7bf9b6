import LogCatalog.Proofs.Pool.Shift

/-!
# The loss of the runtime

The loop and the fetches of a pool live on a runtime that can go away at any moment. Whatever happened
before and after, the count of unfinished fetches is that of the outstanding ones and of those that a loss
found in the queue. The latter were dropped like all others, but they stay on the count for good.
-/
namespace LogCatalog.Shift

/-- What can happen to a shift whose runtime can go away. -/
inductive Incident where
  | event (e : Event)
  | loss

def undergo (x : Shift) : Incident → Shift
  | .event e => x.meet e
  | .loss =>
    let (work, pool) := x.pool.collapse x.work
    ⟨work, pool⟩

/-- The shift after the incidents, one after the other. -/
def outlive (x : Shift) (incidents : List Incident) : Shift := incidents.foldl undergo x

/-- The fetches that are accepted in an incident. -/
def entrants (x : Shift) : Incident → List Fetch
  | .event e => (x.accepted? e).toList
  | .loss => []

/-- The fetches that end in an incident. -/
def leavers (x : Shift) : Incident → List Fetch
  | .event e => (x.exit? e).toList.map Exit.fetch
  | .loss => []

/-- The fetches that an incident drops while they have a permit or are held. -/
def dropped (x : Shift) : Incident → List Fetch
  | .event _ => []
  | .loss => x.pool.active.map Task.fetch ++ x.pool.held.toList

/-- The fetches that an incident drops in the queue. -/
def stranded (x : Shift) : Incident → List Fetch
  | .event _ => []
  | .loss => x.pool.queue

/-- The fetches that the incidents show to an observer, in order. -/
def gather (see : Shift → Incident → List Fetch) (x : Shift) : List Incident → List Fetch
  | [] => []
  | i :: incidents => see x i ++ (x.undergo i).gather see incidents

/-- Every accepted fetch is outstanding, or it has ended or been dropped, and the count holds those that are
outstanding and those that were dropped in the queue. -/
structure Accounted (x : Shift) (accepted ended lost stuck : List Fetch) : Prop where
  places : accepted.Perm (x.pool.outstanding ++ (ended ++ lost ++ stuck))
  tickets : (accepted.map Fetch.ticket).Nodup
  issued : ∀ f ∈ accepted, f.ticket < x.work.issued
  unfinished : x.pool.unfinished = x.pool.outstanding.length + stuck.length

variable {x : Shift} {accepted ended lost stuck : List Fetch}

theorem accounted_start (work : Workspace) (workers : Nat) :
    Accounted ⟨work, .start workers⟩ [] [] [] [] where
  places := .nil
  tickets := List.nodup_nil
  issued _ hf := nomatch hf
  unfinished := rfl

namespace Accounted

theorem nodup_outstanding (h : Accounted x accepted ended lost stuck) :
    (x.pool.outstanding.map Fetch.ticket).Nodup := by
  have hd := (h.places.map Fetch.ticket).nodup_iff.1 h.tickets
  rw [List.map_append] at hd
  exact List.Nodup.of_append_left hd

theorem started_le (h : Accounted x accepted ended lost stuck) :
    x.pool.active.length + x.pool.held.toList.length ≤ x.pool.unfinished := by
  rw [h.unfinished, Pool.outstanding, List.length_append, List.length_append, List.length_map]
  omega

/-- A shift with the same outstanding fetches and the same count. -/
theorem congr (h : Accounted x accepted ended lost stuck) {y : Shift}
    (ho : y.pool.outstanding = x.pool.outstanding) (hu : y.pool.unfinished = x.pool.unfinished)
    (hi : x.work.issued ≤ y.work.issued) : Accounted y accepted ended lost stuck where
  places := ho ▸ h.places
  tickets := h.tickets
  issued f hf := Nat.lt_of_lt_of_le (h.issued f hf) hi
  unfinished := by rw [hu, ho, h.unfinished]

theorem submit (h : Accounted x accepted ended lost stuck) (r : Request) :
    Accounted (x.meet (.submit r)) (accepted ++ (x.accepted? (.submit r)).toList) ended lost stuck := by
  rcases x.meet_submit r with ⟨ha, -, -, hmeet⟩ | ⟨ha, work, hmeet, hi⟩
  · have ho := Pool.outstanding_queued x.pool (x.fetchFor r) (x.pool.unfinished + 1)
    rw [ha, hmeet]
    refine ⟨?_, Pool.nodup_tickets_concat h.tickets h.issued, Pool.ticket_lt_concat h.issued, ?_⟩
    · have hplaces := h.places.append_right [x.fetchFor r]
      rw [List.append_assoc] at hplaces
      rw [ho, List.append_assoc]
      exact hplaces.trans (List.perm_append_comm.append_left _)
    · rw [ho, List.length_append, List.length_singleton, h.unfinished, Nat.add_right_comm]
  · rw [ha, hmeet, Option.toList_none, List.append_nil]
    exact h.congr rfl rfl (hi ▸ Nat.le_succ _)

theorem move (h : Accounted x accepted ended lost stuck) (m : Move) :
    Accounted (x.meet (.move m)) accepted (ended ++ (x.exit? (.move m)).toList.map Exit.fetch) lost
      stuck := by
  rcases x.meet_move m with ⟨hmeet, -, -, he⟩ | ⟨work, pool, hmeet, hs⟩
  · rw [hmeet, he, Option.toList_none, List.map_nil, List.append_nil]
    exact h
  · rw [hmeet]
    cases he : x.exit? (.move m) with
    | none =>
      rw [he] at hs
      obtain ⟨ho, hu, -, -, -, -, hi⟩ := hs.quiet
      rw [Option.toList_none, List.map_nil, List.append_nil]
      exact h.congr ho hu (Nat.le_of_eq hi.symm)
    | some left =>
      rw [he] at hs
      obtain ⟨hmem, ho⟩ := hs.outstanding_eq h.nodup_outstanding
      obtain ⟨t, -, -, hretire⟩ := hs.exists_active
      refine ⟨?_, h.tickets, fun f hf => hs.closed.issued ▸ h.issued f hf, ?_⟩
      · have hleft := (List.perm_cons_erase hmem).trans (List.perm_append_singleton _ _).symm
        have hplaces := h.places
        rw [ho, Option.toList_some, List.map_singleton]
        rw [List.perm_iff_count] at *
        intro f
        have hf := hplaces f
        have hl := hleft f
        simp only [List.count_append] at *
        omega
      · have hlength := List.length_erase_add_one hmem
        rw [ho, hretire]
        change x.pool.unfinished - 1 = _
        rw [h.unfinished]
        omega

theorem meet (h : Accounted x accepted ended lost stuck) (e : Event) :
    Accounted (x.meet e) (accepted ++ (x.accepted? e).toList)
      (ended ++ (x.exit? e).toList.map Exit.fetch) lost stuck := by
  cases e with
  | submit r => simpa [exit?] using h.submit r
  | move m => simpa [accepted?] using h.move m
  | close =>
    have hclosed : Accounted (x.meet .close) accepted ended lost stuck := h.congr rfl rfl (Nat.le_refl _)
    simpa [accepted?, exit?] using hclosed
  | meanwhile w =>
    have hwork : Accounted (x.meet (.meanwhile w)) accepted ended lost stuck :=
      h.congr rfl rfl (Nat.le_max_left _ _)
    simpa [accepted?, exit?] using hwork

/-- The loss takes off the count what it drops, but for the queue. -/
theorem loss (h : Accounted x accepted ended lost stuck) :
    Accounted (x.undergo .loss) accepted ended (lost ++ x.dropped .loss) (stuck ++ x.stranded .loss) := by
  have hissued : (x.undergo .loss).work.issued = x.work.issued := by
    change (x.pool.collapse x.work).1.issued = _
    rw [Pool.collapse_fst]
  refine ⟨?_, h.tickets, fun f hf => hissued ▸ h.issued f hf, ?_⟩
  · have hplaces := h.places
    rw [List.perm_iff_count] at *
    intro f
    have hf := hplaces f
    change _ = ([] ++ _ : List Fetch).count f
    simp only [dropped, stranded, Pool.outstanding, List.nil_append, List.count_append] at *
    omega
  · have hu := h.unfinished
    change x.pool.unfinished - (x.pool.active.length + x.pool.held.toList.length) =
      0 + (stuck ++ x.pool.queue).length
    simp only [Pool.outstanding, List.length_append, List.length_map] at *
    omega

theorem undergo (h : Accounted x accepted ended lost stuck) (i : Incident) :
    Accounted (x.undergo i) (accepted ++ x.entrants i) (ended ++ x.leavers i) (lost ++ x.dropped i)
      (stuck ++ x.stranded i) := by
  cases i with
  | event e => simpa [entrants, leavers, dropped, stranded, Shift.undergo] using h.meet e
  | loss => simpa [entrants, leavers] using h.loss

theorem outlive (h : Accounted x accepted ended lost stuck) (incidents : List Incident) :
    Accounted (x.outlive incidents) (accepted ++ x.gather entrants incidents)
      (ended ++ x.gather leavers incidents) (lost ++ x.gather dropped incidents)
      (stuck ++ x.gather stranded incidents) := by
  induction incidents generalizing x accepted ended lost stuck with
  | nil => simpa [gather, Shift.outlive] using h
  | cons i incidents ih =>
    have hrest := ih (h.undergo i)
    simp only [List.append_assoc] at hrest
    exact hrest

end Accounted

end LogCatalog.Shift
