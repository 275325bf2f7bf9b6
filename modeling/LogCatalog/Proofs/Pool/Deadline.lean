import LogCatalog.Pool.Schedule
import LogCatalog.Proofs.Pool.Permits

/-!
# Deadlines

A call gets its deadline when it is made and keeps it however often it is looked at. Looking ends the call
from its deadline on, so a call that nothing can be learnt of has its deadline still ahead. When no step
of the pool can be taken, which is when its schedule has no next step, every fetch with a permit is in such a
call.
-/
namespace LogCatalog

namespace Call

variable {c next : Call} {remote : Remote} {now turn : Nat}

theorem deadline_passGate (c : Call) (remote : Remote) (now turn : Nat) :
    (c.passGate remote now turn).deadline = c.deadline := by
  unfold passGate
  split
  · split <;> rfl
  · rfl

theorem deadline_of_orTimedOut (h : c.orTimedOut now = .waiting next) : next.deadline = c.deadline := by
  unfold orTimedOut at h
  split at h
  · exact nomatch h
  · cases h
    rfl

theorem deadline_of_poll (h : c.poll remote now turn = .waiting next) : next.deadline = c.deadline := by
  rw [← deadline_passGate c remote now turn]
  simp only [poll] at h
  split at h
  · split at h
    · split at h
      · exact nomatch h
      · exact nomatch h
      · have hsilent := deadline_of_orTimedOut h
        exact hsilent
    · exact deadline_of_orTimedOut h
  · exact deadline_of_orTimedOut h

/-- A call that is not due is before its deadline, and looking at it changes nothing. -/
theorem poll_of_not_due (h : ¬c.isDue remote now) :
    now < c.deadline ∧ c.poll remote now turn = .waiting c := by
  rw [isDue, Bool.or_eq_true, not_or, decide_eq_true_eq, Nat.not_le] at h
  obtain ⟨hd, hw⟩ := h
  have hwaiting : c.orTimedOut now = .waiting c := if_neg (Nat.not_le.2 hd)
  refine ⟨hd, ?_⟩
  obtain ⟨deadline, begun, wait, since⟩ := c
  cases wait with
  | gate name delay reply => simpa [poll, passGate, show ¬remote.isOpen name from hw] using hwaiting
  | timer due reply =>
    have hdue : ¬due ≤ now := by simpa using hw
    simpa [poll, passGate, hdue] using hwaiting
  | silence => exact hwaiting

end Call

namespace Workspace

theorem timeout_close (w : Workspace) (f : Fetch) (o : Outcome) : (w.close f o).timeout = w.timeout := by
  unfold close
  cases o.isFailure <;> rfl

theorem timeout_outcome? (w : Workspace) (f : Fetch) (e : Ending) :
    (w.outcome? f e).2.timeout = w.timeout := by
  unfold outcome?
  split
  · split <;> rfl
  all_goals rfl

theorem timeout_finish (w : Workspace) (f : Fetch) (e : Ending) :
    (w.finish f e).2.timeout = w.timeout := by
  have ho := w.timeout_outcome? f e
  unfold finish
  split
  · next h => rwa [h, ← timeout_close] at ho
  · next h => rwa [h] at ho

end Workspace

theorem Rank.first?_eq_none_iff {α : Type} {choices : List (Rank × α)} :
    Rank.first? choices = none ↔ choices = [] := by
  cases choices with
  | nil => simp [first?]
  | cons a rest =>
    rw [first?]
    split
    · split <;> simp
    · simp

namespace Pool

variable {w w' : Workspace} {p p' : Pool} {m : Move} {x? : Option Exit} {t : Task} {f : Fetch} {c : Call}
  {capacity : Nat}

theorem Step.timeout_eq (h : Step w p m x? w' p') : w'.timeout = w.timeout := by
  cases h with
  | turnBack => exact Workspace.timeout_close _ _ _
  | finish => exact Workspace.timeout_finish _ _ _
  | _ => rfl

theorem eq_of_ticket_eq (hd : (p.outstanding.map Fetch.ticket).Nodup) {u : Task} (ht : t ∈ p.active)
    (hu : u ∈ p.active) (e : t.fetch.ticket = u.fetch.ticket) : t = u := by
  rw [outstanding_eq, List.map_append, List.map_map] at hd
  exact List.inj_on_of_nodup_map (List.Nodup.of_append_left hd) ht hu e

theorem find?_of_mem (hd : (p.outstanding.map Fetch.ticket).Nodup) (ht : t ∈ p.active) :
    p.find? t.fetch.ticket = some t := by
  cases hf : p.find? t.fetch.ticket with
  | none => simpa using List.find?_eq_none.1 hf t ht
  | some u =>
    obtain ⟨hu, e⟩ := find?_eq_some hf
    rw [eq_of_ticket_eq hd hu ht e]

theorem mem_restage {ticket : Nat} {stage : Stage} (h : t ∈ (p.restage ticket stage).active) :
    t ∈ p.active ∨ ∃ u ∈ p.active, u.fetch.ticket = ticket ∧ t = ⟨u.fetch, stage⟩ := by
  obtain ⟨u, hu, rfl⟩ := List.mem_map.1 h
  by_cases e : u.fetch.ticket = ticket
  · rw [if_pos e]
    exact .inr ⟨u, hu, e, rfl⟩
  · rw [if_neg e]
    exact .inl hu

/-- A call that is under way after a step was so before it with the same deadline, or the step made it. -/
theorem Step.calling_cases (h : Step w p m x? w' p') (hd : (p.outstanding.map Fetch.ticket).Nodup)
    (hc : ⟨f, .calling c⟩ ∈ p'.active) :
    (∃ c₀, ⟨f, .calling c₀⟩ ∈ p.active ∧ c.deadline = c₀.deadline) ∨
      p.called? w m = some f ∧ c.deadline = w.now + w.timeout := by
  cases h with
  | receive | leave => exact .inl ⟨c, hc, rfl⟩
  | grant =>
    rcases List.mem_append.1 hc with hc | hc
    · exact .inl ⟨c, hc, rfl⟩
    · exact nomatch List.mem_singleton.1 hc
  | begin found reached =>
    rcases mem_restage hc with hc | ⟨u, hu, e, ht⟩
    · exact .inl ⟨c, hc, rfl⟩
    · obtain rfl := eq_of_ticket_eq hd hu (find?_eq_some found).1 e
      cases ht
      exact .inr ⟨by simp [called?, found, reached], rfl⟩
  | wait found _ polled =>
    rcases mem_restage hc with hc | ⟨u, hu, e, ht⟩
    · exact .inl ⟨c, hc, rfl⟩
    · have hmem := (find?_eq_some found).1
      obtain rfl := eq_of_ticket_eq hd hu hmem e
      cases ht
      exact .inl ⟨_, hmem, Call.deadline_of_poll polled⟩
  | turnBack | finish => exact .inl ⟨c, List.mem_of_mem_filter hc, rfl⟩

/-- No step of the pool can be taken. -/
def Still (w : Workspace) (p : Pool) : Prop := ∀ m, move? w p m = none

/-- A fetch that cannot go on is in a call of which nothing new can be learnt. -/
theorem calling_of_resume?_eq_none (hd : (p.outstanding.map Fetch.ticket).Nodup) (ht : t ∈ p.active)
    (hmove : resume? w p t.fetch.ticket = none) :
    ∃ c, t.stage = .calling c ∧ ¬c.isDue w.remote w.now := by
  have hfind := find?_of_mem hd ht
  obtain ⟨f, stage⟩ := t
  rw [resume?, hfind] at hmove
  cases stage with
  | granted =>
    rcases w.begin_cases f with ⟨o, remote, -, hb⟩ | ⟨plan, remote, hb⟩ <;> simp [hb] at hmove
  | calling c =>
    refine ⟨c, rfl, ?_⟩
    intro hdue
    simp only [hdue, if_true] at hmove
    split at hmove <;> cases hmove

theorem Still.calling (h : Still w p) (hd : (p.outstanding.map Fetch.ticket).Nodup) (ht : t ∈ p.active) :
    ∃ c, t.stage = .calling c ∧ ¬c.isDue w.remote w.now :=
  calling_of_resume?_eq_none hd ht (h (.resume t.fetch.ticket))

theorem taskMove_eq_nil_iff {place : Nat} :
    taskMove w place t = [] ↔ ∃ c, t.stage = .calling c ∧ ¬c.isDue w.remote w.now := by
  rw [taskMove]
  cases t.stage <;> simp

theorem loopMove_eq_nil_iff :
    p.loopMove = [] ↔ p.receive? = none ∧ p.grant? = none ∧ p.leave? = none := by
  simp only [loopMove, ← Option.not_isSome_iff_eq_none]
  split <;> [skip; split <;> [skip; split]] <;> simp_all

theorem resume?_eq_none {ticket : Nat}
    (h : ∀ t ∈ p.active, ∃ c, t.stage = .calling c ∧ ¬c.isDue w.remote w.now) :
    resume? w p ticket = none := by
  rw [resume?]
  cases hf : p.find? ticket with
  | none => rfl
  | some t =>
    obtain ⟨f, stage⟩ := t
    obtain ⟨c, rfl, hdue⟩ := h _ (find?_eq_some hf).1
    exact if_neg hdue

/-- The schedule has a next step as long as a step can be taken. -/
theorem next?_eq_none_iff (hd : (p.outstanding.map Fetch.ticket).Nodup) :
    next? w p = none ↔ Still w p := by
  rw [next?, Option.map_eq_none_iff, ranked?, Rank.first?_eq_none_iff, List.append_eq_nil_iff,
    loopMove_eq_nil_iff, List.flatMap_eq_nil_iff]
  constructor
  · rintro ⟨htasks, hreceive, hgrant, hleave⟩ m
    cases m with
    | receive => rw [move?, hreceive, Option.map_none]
    | grant => rw [move?, hgrant, Option.map_none]
    | leave => rw [move?, hleave, Option.map_none]
    | resume ticket =>
      refine resume?_eq_none fun t ht => ?_
      obtain ⟨place, hplace⟩ := List.mem_iff_getElem?.1 ht
      exact taskMove_eq_nil_iff.1 (htasks _ (List.mk_mem_zipIdx_iff_getElem?.2 hplace))
  · intro h
    refine ⟨?_, Option.map_eq_none_iff.1 (h .receive), Option.map_eq_none_iff.1 (h .grant),
      Option.map_eq_none_iff.1 (h .leave)⟩
    rintro ⟨t, place⟩ ht
    exact taskMove_eq_nil_iff.2 (h.calling hd (List.fst_mem_of_mem_zipIdx ht))

/-- A fetch that no step gives a permit waits behind as many others as there are permits. -/
theorem Still.length_active (h : Still w p) (hs : p.Staffed capacity) (hw : p.waiting ≠ []) :
    p.active.length = capacity := by
  have hreceive : p.receive? = none := Option.map_eq_none_iff.1 (h .receive)
  have hgrant : p.grant? = none := Option.map_eq_none_iff.1 (h .grant)
  have hpermits := hs.permits
  have hfull : ¬p.active.length < capacity := by
    intro hlt
    have hstep := hs.exists_step hw hlt
    simp [hreceive, hgrant] at hstep
  omega

end Pool
end LogCatalog
