import LogCatalog.Proofs.Bench.Tickets
import LogCatalog.Proofs.Catalog.Outage
import LogCatalog.Proofs.Catalog.Rest

/-!
# The bench comes to rest

Every step of a bench uses up some of the work that one of its pools can do before the clock moves. So a bench
settles where no pool can take a step, whatever commands have led to it. A catalog without sweeps settles
and advances just as the bench does that has its workspace and its pool.
-/
namespace LogCatalog.Bench

variable {b : Bench} {place : Nat} {m : Move}

/-- The next step is the next one of some pool. -/
theorem exists_of_next? (h : b.next? = some (place, m)) :
    ∃ p, b.pools[place]? = some p ∧ Pool.next? b.work p = some m := by
  obtain ⟨⟨rank, choice⟩, hfirst, rfl⟩ := Option.map_eq_some_iff.1 h
  obtain ⟨⟨p, i⟩, hp, hranked⟩ := List.mem_filterMap.1 (Rank.mem_of_first? hfirst)
  obtain ⟨⟨rank', m'⟩, hm, e⟩ := Option.map_eq_some_iff.1 hranked
  cases e
  exact ⟨p, List.mem_zipIdx_iff_getElem?.1 hp, congrArg (Option.map Prod.snd) hm⟩

/-- There is a next step as long as some pool can take one. -/
theorem next?_eq_none_iff (h : b.Tidy) : b.next? = none ↔ ∀ p ∈ b.pools, p.Still b.work := by
  have hpool (p : Pool) (hp : p ∈ b.pools) : Pool.ranked? b.work p = none ↔ p.Still b.work := by
    rw [← Pool.next?_eq_none_iff (h.tickets p hp), Pool.next?, Option.map_eq_none_iff]
  rw [next?, Option.map_eq_none_iff, Rank.first?_eq_none_iff, List.filterMap_eq_nil_iff]
  constructor
  · intro hnone p hp
    obtain ⟨i, hi⟩ := List.mem_iff_getElem?.1 hp
    exact (hpool p hp).1 (Option.map_eq_none_iff.1 (hnone (p, i) (List.mk_mem_zipIdx_iff_getElem?.2 hi)))
  · rintro hstill ⟨p, i⟩ hp
    have hmem : p ∈ b.pools := List.fst_mem_of_mem_zipIdx hp
    exact Option.map_eq_none_iff.2 ((hpool p hmem).2 (hstill p hmem))

theorem backlog_set_lt {pools : List Pool} {p p' : Pool} (hp : pools[place]? = some p)
    (hlt : p'.work < p.work) :
    (pools.set place p').foldr (fun p n => p.work + n) 0 < pools.foldr (fun p n => p.work + n) 0 := by
  induction pools generalizing place with
  | nil => cases hp
  | cons q pools ih =>
    cases place with
    | zero =>
      cases hp
      exact Nat.add_lt_add_right hlt _
    | succ place => exact Nat.add_lt_add_left (ih hp) _

theorem backlog_lt (h : b.Tidy) {next : Bench} (hn : clockwork.next? b = some next) :
    clockwork.backlog next < clockwork.backlog b := by
  obtain ⟨place, m, hm, rfl⟩ := clockwork_next?_eq_some_iff.1 hn
  obtain ⟨p, hp, hnext⟩ := exists_of_next? hm
  have htickets := h.tickets p (List.mem_of_getElem? hp)
  obtain ⟨work, p', hmove⟩ := Pool.exists_of_next? htickets hnext
  have hstep : b.step place m = { b with work, pools := b.pools.set place p' } := by
    simp [step, hp, hmove]
  rw [hstep]
  exact backlog_set_lt hp ((Pool.step_of_move? hmove).work_lt htickets)

theorem next?_settle (h : b.Tidy) : b.settle.next? = none := by
  have hrest : clockwork.next? b.settle = none :=
    Clockwork.next?_settleWithin (fun _ _ hb hn => ⟨hb.next hn, backlog_lt hb hn⟩) h (Nat.le_refl _)
  exact Option.map_eq_none_iff.1 hrest

/-- Whatever commands have led to a bench, once it has settled none of its pools can take a step. -/
theorem still_of_settle (lifetime timeout : Nat) (remote : Remote) (commands : List Command) :
    ∀ step ∈ (new lifetime timeout remote).performAll commands,
      ∀ p ∈ step.bench.settle.pools, p.Still step.bench.settle.work := by
  intro step hstep
  have htidy := (tidy_new lifetime timeout remote).performAll commands step hstep
  exact (next?_eq_none_iff htidy.settle).1 (next?_settle htidy)

/-- The bench that has the workspace and the pool of a catalog. -/
def ofCatalog (s : Catalog) : Bench := { work := s.work, pools := [s.pool] }

variable {s : Catalog}

theorem tidy_ofCatalog (h : s.Tidy) : (ofCatalog s).Tidy where
  tickets p hp := by
    rw [List.mem_singleton.1 hp]
    exact h.tickets
  issued p hp := by
    rw [List.mem_singleton.1 hp]
    exact h.issued
  prepared _ _ hf := by simp [ofCatalog] at hf
  single _ _ _ _ hf := by simp [ofCatalog] at hf
  apart _ _ hf := by simp [ofCatalog] at hf

theorem next?_ofCatalog (unswept : s.sweepAt = none) :
    clockwork.next? (ofCatalog s) = (Catalog.clockwork.next? s).map ofCatalog := by
  cases hm : Pool.ranked? s.work s.pool with
  | none =>
    simp [clockwork, Catalog.clockwork, next?, Catalog.next?, Pool.next?, ofCatalog, hm, unswept, Rank.first?]
  | some ranked =>
    obtain ⟨rank, m⟩ := ranked
    have hb : (ofCatalog s).next? = some (0, m) := by simp [next?, ofCatalog, hm, Rank.first?]
    have hs : s.next? = some (.move m) := by simp [Catalog.next?, Pool.next?, hm]
    have hstep : (ofCatalog s).step 0 m = ofCatalog (s.act (.background (.move m))) := by
      cases hmove : Pool.move? s.work s.pool m <;>
        simp [step, ofCatalog, Catalog.act, Catalog.step?, hmove]
    rw [clockwork_next?_eq_some_iff.2 ⟨0, m, hb, rfl⟩,
      Catalog.clockwork_next?_eq_some_iff.2 ⟨.move m, hs, rfl⟩, hstep]
    rfl

theorem sweepAt_act_background (unswept : s.sweepAt = none) (b : Catalog.Background) :
    (s.act (.background b)).sweepAt = none := by
  cases b with
  | move m =>
    rcases Catalog.act_move s m with ⟨e, -⟩ | ⟨work, pool, e, -⟩ <;> rw [e] <;> exact unswept
  | sweep =>
    rcases s.act_sweep_cases with e | ⟨due, -, hs, -⟩
    · rwa [e]
    · rw [unswept] at hs
      cases hs

theorem shows_ofCatalog :
    Catalog.clockwork.Shows clockwork ofCatalog fun s => s.Tidy ∧ s.sweepAt = none where
  now _ _ := rfl
  next? _ hs := next?_ofCatalog hs.2
  elapse _ _ _ := rfl
  wakes s hs := by
    change s.pool.wakes ++ [] = s.sweepAt.toList ++ s.pool.wakes
    rw [hs.2, Option.toList_none, List.append_nil, List.nil_append]
  step s next hs hn := by
    obtain ⟨b, -, rfl⟩ := Catalog.clockwork_next?_eq_some_iff.1 hn
    exact ⟨hs.1.act _, sweepAt_act_background hs.2 b⟩
  clock s ms hs := ⟨hs.1.act (.elapse ms), hs.2⟩
  rest s hs := by
    have hsteady : s.Steady := ⟨hs.1, fun swept => absurd hs.2 swept⟩
    exact ⟨Catalog.clockwork_next?_eq_none_iff.2 (Catalog.settled_settle hsteady),
      Option.map_eq_none_iff.2 (next?_settle (tidy_ofCatalog hs.1))⟩

/-- A catalog that no sweeps are ahead of goes on by itself just as the bench does. -/
theorem goes_as_catalog (policy : Policy) (remote : Remote) (events : List Catalog.Event)
    (unswept : ((Catalog.new policy remote).live events).sweepAt = none) :
    let s := (Catalog.new policy remote).live events
    (ofCatalog s).settle = ofCatalog s.settle ∧
      ∀ ms, (ofCatalog s).advance ms = ofCatalog (s.advance ms) := by
  intro s
  have hs : s.Tidy ∧ s.sweepAt = none := ⟨(Catalog.tidy_new policy remote).live events, unswept⟩
  have hruntime : (ofCatalog s).runtime = true := rfl
  refine ⟨shows_ofCatalog.settle_image hs, fun ms => ?_⟩
  rw [advance, if_pos hruntime]
  exact shows_ofCatalog.advance_image hs ms

/-- A fetch is queued when the catalog is left to itself. -/
example :
    let s := (Catalog.new { Policy.ofHours 1 with sweepEvery := 0 } (Catalog.answering [])).live
      [.action (.start true), .action (.names "server" "h1" "east")]
    s.pool.queue.length = 1 ∧ (ofCatalog s).settle = ofCatalog s.settle :=
  ⟨by decide, (goes_as_catalog _ _ _ rfl).1⟩

end LogCatalog.Bench
