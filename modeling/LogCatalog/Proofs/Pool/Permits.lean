import LogCatalog.Proofs.Pool.Outstanding

/-!
# Permits

Every permit is free or in the hands of one fetch, and the loop is there as long as a fetch waits for
it. So a fetch whose permit no step can give it waits behind as many others as there are permits.
-/
namespace LogCatalog.Pool

/-- The fetches without a permit, in the order in which they will get one. -/
def waiting (p : Pool) : List Fetch := p.held.toList ++ p.queue

structure Staffed (p : Pool) (capacity : Nat) : Prop where
  permits : p.free + p.active.length = capacity
  looping : p.waiting ≠ [] → p.looping

variable {w w' : Workspace} {p p' : Pool} {m : Move} {x? : Option Exit} {t : Task} {capacity : Nat}

theorem outstanding_eq (p : Pool) : p.outstanding = p.active.map Task.fetch ++ p.waiting := by
  rw [outstanding, waiting, List.append_assoc]

theorem staffed_start (workers : Nat) : (start workers).Staffed (permits workers) where
  permits := rfl
  looping h := absurd rfl h

/-- The task that is retired is the only one with its ticket. -/
theorem active_perm_retire (hd : (p.outstanding.map Fetch.ticket).Nodup) (ht : t ∈ p.active) :
    p.active.Perm (t :: (p.retire t.fetch.ticket).active) := by
  obtain ⟨before, after, ha⟩ := List.append_of_mem ht
  rw [outstanding_eq, ha, List.map_append, List.map_append, List.map_append, List.map_cons,
    List.map_cons] at hd
  have hd := (List.perm_middle.nodup_iff.1 (List.Nodup.of_append_left hd))
  rw [List.nodup_cons, ← List.map_append, ← List.map_append, List.map_map] at hd
  have hkept : (before ++ after).filter (fun u => u.fetch.ticket != t.fetch.ticket) = before ++ after := by
    rw [List.filter_eq_self]
    intro u hu
    rw [bne_iff_ne]
    exact fun e => hd.1 (e ▸ List.mem_map_of_mem hu)
  have hretire : (p.retire t.fetch.ticket).active = before ++ after := by
    rw [← hkept, retire, ha, List.filter_append, List.filter_append, List.filter_cons_of_neg (by simp)]
  rw [hretire, ha]
  exact List.perm_middle

/-- A fetch gets a permit when it stops waiting, and in the order in which it waited. -/
theorem Step.waiting_eq (h : Step w p m x? w' p') : (p.granted? m).toList ++ p'.waiting = p.waiting := by
  cases h with
  | receive looping held queue => simp [granted?, waiting, held, queue]
  | grant looping held free => simp [granted?, waiting, grant?, looping, held, free]
  | leave | begin | wait | turnBack | finish => rfl

/-- A fetch has its permit until it leaves. -/
theorem Step.active_perm (h : Step w p m x? w' p') (hd : (p.outstanding.map Fetch.ticket).Nodup) :
    (p.active.map Task.fetch ++ (p.granted? m).toList).Perm
      (x?.toList.map Exit.fetch ++ p'.active.map Task.fetch) := by
  cases h with
  | receive | leave => simp [granted?]
  | grant looping held free => simp [granted?, grant?, looping, held, free]
  | begin | wait => simp [granted?, map_fetch_restage]
  | turnBack found => simpa [granted?] using (active_perm_retire hd (find?_eq_some found).1).map Task.fetch
  | finish found => simpa [granted?] using (active_perm_retire hd (find?_eq_some found).1).map Task.fetch

/-- A permit is taken when a fetch gets it and is free again when the fetch leaves. -/
theorem Step.free_add (h : Step w p m x? w' p') :
    p'.free + (p.granted? m).toList.length = p.free + x?.toList.length := by
  cases h with
  | grant looping held free => simp [granted?, grant?, looping, held, free]
  | receive | leave | begin | wait | turnBack | finish => rfl

theorem Step.staffed (h : Step w p m x? w' p') (hd : (p.outstanding.map Fetch.ticket).Nodup)
    (hs : p.Staffed capacity) : p'.Staffed capacity where
  permits := by
    have hactive := (h.active_perm hd).length_eq
    have hfree := h.free_add
    have hpermits := hs.permits
    simp only [List.length_append, List.length_map] at hactive
    omega
  looping hw := by
    have hp : p.waiting ≠ [] := by
      rw [← h.waiting_eq]
      exact fun e => hw (List.append_eq_nil_iff.1 e).2
    cases h with
    | leave looping closed held queue => exact absurd (by simp [waiting, held, queue]) hp
    | _ => exact hs.looping hp

/-- As long as a fetch waits and a permit is free, the loop can take its next step. -/
theorem Staffed.exists_step (hs : p.Staffed capacity) (hw : p.waiting ≠ [])
    (hfree : p.active.length < capacity) : p.receive?.isSome ∨ p.grant?.isSome := by
  have hl := hs.looping hw
  have hpermits := hs.permits
  cases hheld : p.held with
  | some f =>
    obtain ⟨n, hn⟩ : ∃ n, p.free = n + 1 := Nat.exists_eq_add_one.2 (by omega)
    exact .inr (by simp [grant?, hl, hheld, hn])
  | none =>
    cases hqueue : p.queue with
    | nil => exact absurd (by simp [waiting, hheld, hqueue]) hw
    | cons f rest => exact .inl (by simp [receive?, hl, hheld, hqueue])

end LogCatalog.Pool
