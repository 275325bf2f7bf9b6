import Mathlib.Algebra.Order.BigOperators.Group.List
import Mathlib.Algebra.Order.Group.Nat
import Mathlib.Algebra.Ring.Nat
import LogCatalog.Proofs.Pool.Deadline
import LogCatalog.Proofs.Workspace.Course

/-!
# The pool comes to rest

The schedule takes only steps that can be taken, and every step uses up some of the work that the pool can
do before the clock moves. So the pool comes to rest, and it stays at rest until the clock reaches the
next instant at which a fetch becomes due.
-/
namespace LogCatalog

namespace Call

variable {c next : Call} {remote : Remote} {now turn : Nat}

theorem orTimedOut_eq_waiting_iff : c.orTimedOut now = .waiting next ↔ now < c.deadline ∧ next = c := by
  unfold orTimedOut
  by_cases h : c.deadline ≤ now
  · simp [h, Nat.not_lt.2 h]
  · simp [h, Nat.not_le.1 h, eq_comm]

/-- A call that waits on the clock goes on with its wait, or has found out that there will be no reply. -/
theorem waiting_of_poll_timer {deadline begun due since : Nat} {reply : Reply}
    (h : poll ⟨deadline, begun, .timer due reply, since⟩ remote now turn = .waiting next) :
    now < deadline ∧ (next.wait = .silence ∨ now < due ∧ next.wait = .timer due reply) := by
  simp only [poll, passGate] at h
  by_cases hdue : due ≤ now
  · rw [if_pos hdue] at h
    cases reply with
    | answer a => cases h
    | panic => cases h
    | silence =>
      obtain ⟨hlt, rfl⟩ := orTimedOut_eq_waiting_iff.1 h
      exact ⟨hlt, .inl rfl⟩
  · rw [if_neg hdue] at h
    obtain ⟨hlt, rfl⟩ := orTimedOut_eq_waiting_iff.1 h
    exact ⟨hlt, .inr ⟨Nat.not_le.1 hdue, rfl⟩⟩

/-- A call that is due and goes on has less left to wait for. -/
theorem work_lt_of_poll (hdue : c.isDue remote now) (h : c.poll remote now turn = .waiting next) :
    (Stage.calling next).work < (Stage.calling c).work := by
  obtain ⟨deadline, begun, wait, since⟩ := c
  simp only [isDue, Bool.or_eq_true, decide_eq_true_eq] at hdue
  cases wait with
  | gate name delay reply =>
    by_cases hopen : remote.isOpen name
    · rw [poll_of_open hopen] at h
      obtain ⟨-, hwait | ⟨-, hwait⟩⟩ := waiting_of_poll_timer h <;> simp [Stage.work, hwait]
    · simp only [poll, passGate, hopen] at h
      have hlt := (orTimedOut_eq_waiting_iff.1 h).1
      rcases hdue with hle | hopened
      · exact absurd hle (Nat.not_le.2 hlt)
      · exact absurd hopened hopen
  | timer due reply =>
    obtain ⟨hlt, hwait | ⟨hearly, -⟩⟩ := waiting_of_poll_timer h
    · simp [Stage.work, hwait]
    · rcases hdue with hle | hle
      · exact absurd hle (Nat.not_le.2 hlt)
      · exact absurd (of_decide_eq_true hle) (Nat.not_le.2 hearly)
  | silence =>
    have hlt := (orTimedOut_eq_waiting_iff.1 h).1
    rcases hdue with hle | hfalse
    · exact absurd hle (Nat.not_le.2 hlt)
    · exact absurd hfalse Bool.false_ne_true

/-- A call that is not due wakes up later, and is not due before. -/
theorem isDue_later (h : ¬c.isDue remote now) {time : Nat} (hwake : ∀ wake ∈ c.wakes, time < wake) :
    ¬c.isDue remote time := by
  obtain ⟨deadline, begun, wait, since⟩ := c
  cases wait <;> simp_all [isDue, wakes]

theorem lt_of_mem_wakes (h : ¬c.isDue remote now) {wake : Nat} (hwake : wake ∈ c.wakes) : now < wake := by
  obtain ⟨deadline, begun, wait, since⟩ := c
  cases wait with
  | gate | silence => simp_all [isDue, wakes]
  | timer due reply =>
    simp only [isDue, Bool.or_eq_true, decide_eq_true_eq, not_or, Nat.not_le] at h
    rcases List.mem_pair.1 hwake with rfl | rfl
    · exact h.2
    · exact h.1

end Call

theorem Rank.mem_of_first? {α : Type} {choices : List (Rank × α)} {a : Rank × α}
    (h : Rank.first? choices = some a) : a ∈ choices := by
  induction choices generalizing a with
  | nil => exact nomatch h
  | cons b rest ih =>
    rw [first?] at h
    cases hrest : first? rest with
    | none =>
      rw [hrest] at h
      cases h
      exact List.mem_cons_self
    | some c =>
      simp only [hrest] at h
      split at h
      · cases h
        exact List.mem_cons_of_mem _ (ih hrest)
      · cases h
        exact List.mem_cons_self

namespace Pool

variable {w w' : Workspace} {p p' : Pool} {m : Move} {x? : Option Exit}

theorem eq_of_mem_taskMove {place : Nat} {t : Task} {rank : Rank} (h : (rank, m) ∈ taskMove w place t) :
    m = .resume t.fetch.ticket := by
  unfold taskMove at h
  split at h
  · exact (Prod.mk.inj (List.mem_singleton.1 h)).2
  · split at h
    · exact (Prod.mk.inj (List.mem_singleton.1 h)).2
    · exact nomatch h

/-- The schedule goes on with a step that can be taken. -/
theorem exists_of_next? (hd : (p.outstanding.map Fetch.ticket).Nodup) (h : next? w p = some m) :
    ∃ w' p', move? w p m = some (w', p') := by
  suffices hne : move? w p m ≠ none by
    obtain ⟨⟨w', p'⟩, e⟩ := Option.ne_none_iff_exists'.1 hne
    exact ⟨w', p', e⟩
  intro hnone
  obtain ⟨⟨rank, m'⟩, hranked, rfl⟩ := Option.map_eq_some_iff.1 h
  rcases List.mem_append.1 (Rank.mem_of_first? hranked) with hm | hm
  · obtain ⟨⟨t, place⟩, ht, hm⟩ := List.mem_flatMap.1 hm
    have hm : (rank, m') ∈ taskMove w place t := hm
    obtain rfl := eq_of_mem_taskMove hm
    have hnil : taskMove w place t = [] :=
      taskMove_eq_nil_iff.2 (calling_of_resume?_eq_none hd (List.fst_mem_of_mem_zipIdx ht) hnone)
    rw [hnil] at hm
    cases hm
  · unfold loopMove at hm
    split at hm
    · next hgrant =>
      cases List.mem_singleton.1 hm
      rw [move?, Option.map_eq_none_iff] at hnone
      simp [hnone] at hgrant
    · split at hm
      · next hreceive =>
        cases List.mem_singleton.1 hm
        rw [move?, Option.map_eq_none_iff] at hnone
        simp [hnone] at hreceive
      · split at hm
        · next hleave =>
          cases List.mem_singleton.1 hm
          rw [move?, Option.map_eq_none_iff] at hnone
          simp [hnone] at hleave
        · cases hm

/-- What the tasks of the pool can do before the clock moves. -/
theorem work_eq (p : Pool) :
    p.work = 7 * p.queue.length + 6 * p.held.toList.length +
      (p.active.map fun t => t.stage.work).sum + (if p.looping then 1 else 0) := by
  rw [work, List.sum_eq_foldr, List.foldr_map]

theorem Stage.work_pos (stage : Stage) : 0 < stage.work := by
  unfold Stage.work
  split
  · exact Nat.succ_pos 4
  · split <;> exact Nat.succ_pos _

theorem sum_work_restage_lt (hd : (p.outstanding.map Fetch.ticket).Nodup) {t : Task} (ht : t ∈ p.active)
    {stage : Stage} (hlt : stage.work < t.stage.work) :
    ((p.restage t.fetch.ticket stage).active.map fun u => u.stage.work).sum <
      (p.active.map fun u => u.stage.work).sum := by
  rw [restage, List.map_map]
  refine List.sum_lt_sum _ _ ?_ ⟨t, ht, ?_⟩
  · intro u hu
    by_cases e : u.fetch.ticket = t.fetch.ticket
    · obtain rfl := eq_of_ticket_eq hd hu ht e
      simpa using Nat.le_of_lt hlt
    · simp [e]
  · simpa using hlt

theorem sum_work_retire_lt (hd : (p.outstanding.map Fetch.ticket).Nodup) {t : Task} (ht : t ∈ p.active) :
    ((p.retire t.fetch.ticket).active.map fun u => u.stage.work).sum <
      (p.active.map fun u => u.stage.work).sum := by
  have hsum := ((active_perm_retire hd ht).map fun u => u.stage.work).sum_eq
  have hpos := Stage.work_pos t.stage
  rw [List.map_cons, List.sum_cons] at hsum
  omega

theorem work_callOf_lt (w : Workspace) (plan : Plan) :
    (Stage.calling (w.callOf plan)).work < Stage.granted.work := by
  unfold Workspace.callOf
  cases plan.gate with
  | none => exact Nat.lt_of_sub_eq_succ rfl
  | some gate => exact Nat.lt_of_sub_eq_succ rfl

/-- Every step uses up some work. -/
theorem Step.work_lt (h : Step w p m x? w' p') (hd : (p.outstanding.map Fetch.ticket).Nodup) :
    p'.work < p.work := by
  rw [work_eq, work_eq]
  cases h with
  | receive looping held queue =>
    simp only [held, queue, List.length_cons, Option.toList_none, Option.toList_some, List.length_nil]
    omega
  | grant looping held free =>
    simp only [held, List.map_append, List.sum_append, Option.toList_none, Option.toList_some,
      List.length_cons, List.length_nil, List.map_cons, List.map_nil, List.sum_cons, List.sum_nil,
      Stage.work]
    omega
  | leave looping closed held queue =>
    simp only [looping, if_true, Bool.false_eq_true, if_false]
    omega
  | begin found reached =>
    refine Nat.add_lt_add_right (Nat.add_lt_add_left ?_ _) _
    exact sum_work_restage_lt hd (find?_eq_some found).1 (work_callOf_lt w _)
  | wait found due polled =>
    refine Nat.add_lt_add_right (Nat.add_lt_add_left ?_ _) _
    exact sum_work_restage_lt hd (find?_eq_some found).1 (Call.work_lt_of_poll due polled)
  | turnBack found | finish found =>
    refine Nat.add_lt_add_right (Nat.add_lt_add_left ?_ _) _
    exact sum_work_retire_lt hd (find?_eq_some found).1

theorem Still.lt_wakes (h : Still w p) (hd : (p.outstanding.map Fetch.ticket).Nodup) {wake : Nat}
    (hwake : wake ∈ p.wakes) : w.now < wake := by
  obtain ⟨t, ht, hwake⟩ := List.mem_flatMap.1 hwake
  obtain ⟨c, hstage, hdue⟩ := h.calling hd ht
  rw [hstage] at hwake
  exact Call.lt_of_mem_wakes hdue hwake

/-- Until the next instant at which a fetch becomes due nothing happens. -/
theorem Still.later (h : Still w p) (hd : (p.outstanding.map Fetch.ticket).Nodup) {time : Nat}
    (hwake : ∀ wake ∈ p.wakes, time < wake) : Still { w with now := time } p := by
  intro m
  cases m with
  | receive => exact Option.map_eq_none_iff.2 (Option.map_eq_none_iff.1 (h .receive))
  | grant => exact Option.map_eq_none_iff.2 (Option.map_eq_none_iff.1 (h .grant))
  | leave => exact Option.map_eq_none_iff.2 (Option.map_eq_none_iff.1 (h .leave))
  | resume ticket =>
    refine resume?_eq_none fun t ht => ?_
    obtain ⟨c, hstage, hdue⟩ := h.calling hd ht
    refine ⟨c, hstage, Call.isDue_later hdue fun wake hmem => ?_⟩
    exact hwake wake (List.mem_flatMap.2 ⟨t, ht, by rw [hstage]; exact hmem⟩)

end Pool
end LogCatalog
