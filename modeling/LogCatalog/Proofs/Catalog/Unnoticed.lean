import LogCatalog.Proofs.Catalog.Notice
import LogCatalog.Proofs.Catalog.Outage
import LogCatalog.Proofs.Catalog.Rest

/-!
# Sweeps go unnoticed

Whoever uses a catalog cannot tell how often it is swept. Runs that differ in their sweeps alone are noticed
alike, and so are sessions with catalogs that are swept at different intervals: the clock may stop more
often in one than in the other, but nothing else happens there.
-/
namespace LogCatalog

/-- The schedule goes on with the same step. -/
theorem Pool.next?_congr {whole : Prop} {w w' : Workspace} (h : w.Agree whole w') (p : Pool) :
    next? w p = next? w' p := by
  have hrank (c : Call) : c.rank w.remote w.now = c.rank w'.remote w'.now := by
    rw [Call.rank, Call.rank, h.now, h.remote.opened]
  have htask (place : Nat) (t : Task) : taskMove w place t = taskMove w' place t := by
    simp only [taskMove, h.isDue, hrank]
  simp only [next?, ranked?, htask]

theorem LogEvent.perm_sorted {events events' : List LogEvent}
    (h : events.filter (!·.isPurged) = events'.filter (!·.isPurged)) :
    ((LogEvent.sorted events).filter (!·.isPurged)).Perm
      ((LogEvent.sorted events').filter (!·.isPurged)) := by
  have hsorted (l : List LogEvent) :
      ((LogEvent.sorted l).filter (!·.isPurged)).Perm (l.filter (!·.isPurged)) :=
    (List.mergeSort_perm l _).filter _
  exact ((hsorted events).trans (.of_eq h)).trans (hsorted events').symm

namespace Catalog

/-- A catalog without sweeps. -/
structure Unswept (s : Catalog) : Prop where
  interval : s.policy.sweepEvery = 0
  sweeps : s.sweepAt = none

variable {s t : Catalog} {time target : Nat}

theorem Unswept.act (h : t.Unswept) (a : Action) : (t.act a).Unswept := by
  obtain ⟨hpolicy, hsweeps⟩ := t.sweeps_act a
  refine ⟨by rw [hpolicy, h.interval], ?_⟩
  by_contra hs
  rcases hsweeps hs with hswept | hinterval
  · exact hswept h.sweeps
  · exact absurd h.interval (Nat.ne_of_gt hinterval)

theorem Unswept.settle (h : t.Unswept) : t.settle.Unswept := settle_induction h fun _ _ ht => ht.act _

theorem Unswept.advance (h : t.Unswept) (ms : Nat) : (t.advance ms).Unswept :=
  advance_induction h (fun _ a ht => ht.act a) ms

theorem Unswept.moveClock (h : t.Unswept) (time : Nat) : (clockwork.moveClock t time).Unswept :=
  h.act (.elapse (time - t.now))

theorem Agree.next? (h : s.Agree True t) : Pool.next? s.work s.pool = Pool.next? t.work t.pool := by
  rw [h.pool, Pool.next?_congr h.work]

theorem Agree.loseRuntime (h : s.Agree True t) : s.loseRuntime.Agree True t.loseRuntime where
  policy := h.policy
  phase := h.phase
  work := by
    rw [work_loseRuntime, work_loseRuntime, h.pool, h.work.registry]
    exact h.work.register _
  tails hwhole := by
    have hnow : s.loseRuntime.now = s.now := by
      rw [Catalog.now, work_loseRuntime]
      rfl
    rw [hnow]
    exact h.tails hwhole
  pool := by
    change (s.pool.collapse s.work).2 = (t.pool.collapse t.work).2
    rw [h.pool]
    rfl

/-- When the pool is at rest nothing but sweeps is left to do. -/
theorem agree_settleWithin_of_still (h : Pool.next? s.work s.pool = none) (n : Nat) :
    (clockwork.settleWithin n s).Agree True s := by
  induction n generalizing s with
  | zero => exact .refl s
  | succ n ih =>
    cases hb : s.next? with
    | none =>
      rw [settleWithin_of_settled hb]
      exact .refl s
    | some b =>
      have hsweep : b = .sweep := by
        simp only [Catalog.next?, h] at hb
        split at hb
        · exact (Option.some.inj hb).symm
        · cases hb
      subst hsweep
      have hagree := s.agree_sweep
      rw [settleWithin_of_some hb]
      exact (ih (hagree.next?.trans h)).trans hagree

/-- A catalog settles just like one that is not swept. -/
theorem agree_settleWithin (h : s.Agree True t) (ht : t.Unswept) (n : Nat) :
    (clockwork.settleWithin n s).Agree True (clockwork.settleWithin n t) := by
  induction n generalizing s t with
  | zero => exact h
  | succ n ih =>
    cases hm : Pool.next? t.work t.pool with
    | some m =>
      have hs : s.next? = some (.move m) := by simp only [Catalog.next?, h.next?, hm]
      have ht' : t.next? = some (.move m) := by simp only [Catalog.next?, hm]
      rw [settleWithin_of_some hs, settleWithin_of_some ht']
      exact ih (h.act fun _ => trivial) (ht.act _)
    | none =>
      have hrest : t.Settled := by
        simp only [Settled, Catalog.next?, hm, ht.sweeps, Option.any_none, Bool.false_eq_true, if_false]
      rw [settleWithin_of_settled hrest]
      exact (agree_settleWithin_of_still (h.next?.trans hm) _).trans h

theorem agree_settle (h : s.Agree True t) (ht : t.Unswept) : s.settle.Agree True t.settle := by
  have hbacklog : clockwork.backlog s = clockwork.backlog t := congrArg (Pool.work · + 1) h.pool
  rw [settle, settle, Clockwork.settle, Clockwork.settle, hbacklog]
  exact agree_settleWithin h ht _

theorem agree_moveClock (h : s.Agree True t) (time : Nat) :
    (clockwork.moveClock s time).Agree True (clockwork.moveClock t time) := by
  have hnow : clockwork.now s = clockwork.now t := h.now
  rw [Clockwork.moveClock, Clockwork.moveClock, hnow]
  exact h.act (a := .elapse (time - t.now)) fun _ => trivial

/-- The clock of a catalog that is swept has stopped at a sweep while that of the other has not: both are
at rest, and nothing becomes due in between. -/
structure Ahead (s t : Catalog) : Prop where
  steady : s.Steady ∧ t.Steady
  settled : s.Settled ∧ t.Settled
  unswept : t.Unswept
  le : t.now ≤ s.now
  agree : s.Agree True (clockwork.moveClock t s.now)
  lt_wake : ∀ wake ∈ t.wakes, s.now < wake

theorem ahead_of_agree (hs : s.Steady) (ht : t.Steady) (unswept : t.Unswept) (h : s.Agree True t) :
    Ahead s.settle t.settle := by
  have hnow : s.settle.now = t.settle.now := by rw [now_settle, now_settle, h.now]
  refine ⟨⟨hs.settle, ht.settle⟩, ⟨settled_settle hs, settled_settle ht⟩, unswept.settle,
    Nat.le_of_eq hnow.symm, ?_, fun wake hw => ?_⟩
  · rw [hnow, moveClock_self]
    exact agree_settle h unswept
  · rw [hnow]
    exact (settled_settle ht).lt_wake ht.settle.tidy hw

theorem Ahead.agree_moveClock (h : Ahead s t) (hle : s.now ≤ time) :
    (clockwork.moveClock s time).Agree True (clockwork.moveClock t time) := by
  have hagree := Catalog.agree_moveClock h.agree time
  rwa [moveClock_moveClock h.le hle] at hagree

theorem Ahead.mem_wakes (h : Ahead s t) {wake : Nat} (hw : wake ∈ t.wakes) : wake ∈ s.wakes := by
  have hpool : s.pool = t.pool := h.agree.pool
  rw [wakes, h.unswept.sweeps] at hw
  rw [wakes, hpool]
  exact List.mem_append_right _ hw

theorem Ahead.lt_nextWake (h : Ahead s t) (hw : clockwork.nextWake? s = some time) : s.now < time :=
  h.settled.1.lt_wake h.steady.1.tidy (Clockwork.nextWake?_eq_some_iff.1 hw).1

/-- At the next wake of the one that is swept, either both wake up or there is nothing but a sweep. -/
theorem Ahead.wake (h : Ahead s t) (hw : clockwork.nextWake? s = some time) :
    Ahead (clockwork.moveClock s time).settle (clockwork.moveClock t time).settle ∧
        clockwork.nextWake? t = some time ∨
      Ahead (clockwork.moveClock s time).settle t := by
  obtain ⟨hmem, hmin⟩ := Clockwork.nextWake?_eq_some_iff.1 hw
  have hlt := h.lt_nextWake hw
  have hagree := h.agree_moveClock (Nat.le_of_lt hlt)
  have hsteady := h.steady.1.moveClock time
  by_cases ht : time ∈ t.wakes
  · refine .inl ⟨ahead_of_agree hsteady (h.steady.2.moveClock time) (h.unswept.moveClock time) hagree, ?_⟩
    exact Clockwork.nextWake?_eq_some_iff.2 ⟨ht, fun wake hwake => hmin wake (h.mem_wakes hwake)⟩
  · have hnow : (clockwork.moveClock s time).settle.now = time := now_settle_moveClock (Nat.le_of_lt hlt)
    have hle : t.now ≤ time := Nat.le_trans h.le (Nat.le_of_lt hlt)
    have hlater (wake : Nat) (hwake : wake ∈ t.wakes) : time < wake := by
      refine Nat.lt_of_le_of_ne (hmin wake (h.mem_wakes hwake)) ?_
      rintro rfl
      exact ht hwake
    have hrest := h.settled.2.moveClock h.steady.2.tidy hle hlater
    refine .inr ⟨⟨hsteady.settle, h.steady.2⟩, ⟨settled_settle hsteady, h.settled.2⟩, h.unswept, ?_, ?_, ?_⟩
    · rwa [hnow]
    · have hsettled := agree_settle hagree (h.unswept.moveClock time)
      rw [hnow]
      rwa [settle_of_settled hrest] at hsettled
    · rwa [hnow]

/-- If the one that is swept does not wake up any more, then neither does the other. -/
theorem Ahead.reach (h : Ahead s t) (hle : s.now ≤ target)
    (hwake : ∀ time, clockwork.nextWake? s = some time → target ≤ time) (n m : Nat) :
    (clockwork.advanceWithin n target s).Agree True (clockwork.advanceWithin m target t) := by
  have hother (time : Nat) (hw : clockwork.nextWake? t = some time) : target ≤ time :=
    Clockwork.le_wake_of_nextWake? hwake (h.mem_wakes (Clockwork.nextWake?_eq_some_iff.1 hw).1)
  rw [advanceWithin_of_no_wake h.settled.1 h.steady.1.tidy hle hwake,
    advanceWithin_of_no_wake h.settled.2 h.steady.2.tidy (Nat.le_trans h.le hle) hother]
  exact agree_settle (h.agree_moveClock hle) (h.unswept.moveClock target)

theorem Ahead.advanceWithin (h : Ahead s t) {n m : Nat} (hle : s.now ≤ target) (hn : target - s.now ≤ n)
    (hm : target - t.now ≤ m) :
    (clockwork.advanceWithin n target s).Agree True (clockwork.advanceWithin m target t) := by
  induction n generalizing s t m with
  | zero =>
    refine h.reach hle (fun time hw => ?_) 0 m
    have hlate := h.lt_nextWake hw
    omega
  | succ n ih =>
    by_cases hwake : ∀ time, clockwork.nextWake? s = some time → target ≤ time
    · exact h.reach hle hwake (n + 1) m
    · simp only [not_forall, Nat.not_le] at hwake
      obtain ⟨time, hw, hlt⟩ := hwake
      have hlate := h.lt_nextWake hw
      have hnow : (clockwork.moveClock s time).settle.now = time := now_settle_moveClock (Nat.le_of_lt hlate)
      rw [Clockwork.advanceWithin_of_wake hw hlt]
      rcases h.wake hw with ⟨hahead, hw'⟩ | hahead
      · have hnow' : (clockwork.moveClock t time).settle.now = time :=
          now_settle_moveClock (Nat.le_trans h.le (Nat.le_of_lt hlate))
        have hbehind := h.le
        obtain ⟨m, rfl⟩ : ∃ k, m = k + 1 := Nat.exists_eq_add_one.2 (by omega)
        rw [Clockwork.advanceWithin_of_wake hw' hlt]
        exact ih hahead (by omega) (by omega) (by omega)
      · exact ih hahead (by omega) (by omega) hm

theorem agree_advance (hs : s.Steady) (ht : t.Steady) (unswept : t.Unswept) (h : s.Agree True t)
    (ms : Nat) : (s.advance ms).Agree True (t.advance ms) := by
  have hnow : t.settle.now = s.now := by rw [now_settle, h.now]
  rw [advance_eq, advance_eq, ← h.now]
  refine (ahead_of_agree hs ht unswept h).advanceWithin ?_ ?_ ?_
  · rw [now_settle]
    exact Nat.le_add_right _ _
  · rw [now_settle, Nat.add_sub_cancel_left]
  · rw [hnow, Nat.add_sub_cancel_left]

end Catalog

namespace Session

/-- The session with a log of its own for the next command. -/
def renewed (x : Session) : Session :=
  x.onCatalog fun catalog => { catalog with work := { catalog.work with log := [] } }

theorem runAll_cons (x : Session) (c : Command) (commands : List Command) :
    x.runAll (c :: commands) =
      ⟨(x.renewed.run c).1, LogEvent.sorted (x.renewed.run c).2.catalog.work.log, (x.renewed.run c).2⟩ ::
        (x.renewed.run c).2.runAll commands := rfl

theorem start_eq (x : Session) (runtime : Bool) :
    x.start runtime = (x.catalog.reply (.start runtime), x.onCatalog (·.act (.start runtime))) := by
  simp only [start, Catalog.reply, onCatalog, Catalog.act]
  cases x.catalog.start runtime <;> rfl

/-- Two sessions of which the second one has a catalog that is not swept, and of which the first one may
have one that is. -/
structure Twin (x y : Session) : Prop where
  runtime : x.runtime = y.runtime
  agree : x.catalog.Agree True y.catalog
  unswept : y.catalog.Unswept
  steady : x.runtime → x.catalog.Steady ∧ y.catalog.Steady

namespace Twin

variable {x y : Session}

theorem act (h : Twin x y) (a : Catalog.Action) :
    Twin (x.onCatalog (·.act a)) (y.onCatalog (·.act a)) where
  runtime := h.runtime
  agree := h.agree.act fun _ => trivial
  unswept := h.unswept.act a
  steady hr := ⟨(h.steady hr).1.act a, (h.steady hr).2.act a⟩

theorem settle (h : Twin x y) : Twin x.settle y.settle := by
  unfold Session.settle
  rw [← h.runtime]
  cases hr : x.runtime with
  | false => exact h
  | true =>
    exact ⟨h.runtime, Catalog.agree_settle h.agree h.unswept, h.unswept.settle,
      fun _ => ⟨(h.steady hr).1.settle, (h.steady hr).2.settle⟩⟩

theorem advance (h : Twin x y) (ms : Nat) : Twin (x.advance ms) (y.advance ms) := by
  unfold Session.advance
  rw [← h.runtime]
  cases hr : x.runtime with
  | false => exact h
  | true =>
    have hsteady := h.steady hr
    exact ⟨h.runtime, Catalog.agree_advance hsteady.1 hsteady.2 h.unswept h.agree ms,
      h.unswept.advance ms, fun _ => ⟨hsteady.1.advance ms, hsteady.2.advance ms⟩⟩

theorem start (h : Twin x y) (runtime : Bool) :
    (x.start runtime).1 = (y.start runtime).1 ∧ Twin (x.start runtime).2 (y.start runtime).2 := by
  rw [start_eq, start_eq, h.agree.reply fun _ => trivial]
  exact ⟨rfl, h.act _⟩

theorem lookUp (h : Twin x y) (component host cluster : String) (settling : Bool) (n : Nat) :
    (x.lookUp component host cluster settling n).1 = (y.lookUp component host cluster settling n).1 ∧
      (x.lookUp component host cluster settling n).2.1 =
        (y.lookUp component host cluster settling n).2.1 ∧
      Twin (x.lookUp component host cluster settling n).2.2
        (y.lookUp component host cluster settling n).2.2 := by
  induction n with
  | zero => exact ⟨rfl, rfl, h⟩
  | succ n ih =>
    obtain ⟨-, hcount, htwin⟩ := ih
    have hfound := (htwin.agree.lookUpNames component host cluster).1
    have hact := htwin.act (.names component host cluster)
    simp only [Session.lookUp]
    refine ⟨hfound, ?_, ?_⟩
    · rw [hcount, hfound]
    · cases settling with
      | false => exact hact
      | true => exact hact.settle

theorem tail (h : Twin x y) (base component host cluster : String) (n : Nat) :
    (x.tail base component host cluster n).1 = (y.tail base component host cluster n).1 ∧
      Twin (x.tail base component host cluster n).2 (y.tail base component host cluster n).2 := by
  induction n with
  | zero => exact ⟨rfl, h⟩
  | succ n ih =>
    have hfound := (ih.2.agree.lookUpTail base component host cluster).1
    exact ⟨hfound, ih.2.act (.tail base component host cluster)⟩

theorem dropRuntime (h : Twin x y) : Twin x.dropRuntime y.dropRuntime where
  runtime := rfl
  agree := by
    rw [Catalog.dropRuntime_catalog, Catalog.dropRuntime_catalog]
    exact h.agree.loseRuntime
  unswept := ⟨h.unswept.interval, rfl⟩
  steady := nofun

theorem renewed (h : Twin x y) : Twin x.renewed y.renewed := by
  have htidy (s : Catalog) (hs : s.Tidy) : Catalog.Tidy { s with work := { s.work with log := [] } } :=
    ⟨hs.tickets, hs.issued, hs.idle, hs.failures⟩
  refine ⟨h.runtime, ?_, ⟨h.unswept.interval, h.unswept.sweeps⟩, fun hr => ?_⟩
  · exact h.agree.rework { h.agree.work with log := rfl } (Nat.le_refl _)
  · obtain ⟨hx, hy⟩ := h.steady hr
    exact ⟨⟨htidy _ hx.tidy, hx.interval⟩, ⟨htidy _ hy.tidy, hy.interval⟩⟩

/-- Every command does the same to both sessions. -/
theorem run (h : Twin x y) (c : Command) :
    (x.run c).1 = (y.run c).1 ∧ Twin (x.run c).2 (y.run c).2 := by
  cases c with
  | start ambient =>
    simp only [Session.run, h.runtime]
    exact h.start _
  | startOn =>
    simp only [Session.run, ← h.runtime]
    cases x.runtime with
    | false => exact ⟨rfl, h⟩
    | true => exact h.start true
  | stop => exact ⟨rfl, h.act .stop⟩
  | names component host cluster times settling =>
    obtain ⟨hfound, -, htwin⟩ := h.lookUp component host cluster settling times
    exact ⟨congrArg Reply.names hfound, htwin⟩
  | tail base component host cluster times =>
    obtain ⟨hfound, htwin⟩ := h.tail base component host cluster times
    exact ⟨congrArg Reply.uri hfound, htwin⟩
  | crowd component host cluster callers =>
    obtain ⟨-, hcount, htwin⟩ := h.lookUp component host cluster false callers
    exact ⟨congrArg Reply.number hcount, htwin⟩
  | isMarked component host =>
    refine ⟨?_, h⟩
    simp only [Session.run, Catalog.isMarked, h.agree.work.registry]
  | failuresOf component =>
    refine ⟨?_, h⟩
    simp only [Session.run, h.agree.failuresOf]
  | settle => exact ⟨rfl, h.settle⟩
  | advance ms => exact ⟨rfl, h.advance ms⟩
  | openGate gate => exact ⟨rfl, h.act (.openGate gate)⟩
  | install controller =>
    exact ⟨congrArg Reply.flag (h.agree.work.remote.install controller).1, h.act (.install controller)⟩
  | dropRuntime => exact ⟨rfl, h.dropRuntime⟩

end Twin

/-- Two steps with the same reply and the same log but for what sweeps log, after which the catalogs
agree. -/
structure Step.Alike (x y : Step) : Prop where
  reply : x.reply = y.reply
  log : (x.log.filter (!·.isPurged)).Perm (y.log.filter (!·.isPurged))
  runtime : x.session.runtime = y.session.runtime
  agree : x.session.catalog.Agree True y.session.catalog

/-- Two sessions that have the same twin go alike. -/
theorem alike_runAll {x x' y : Session} (h : Twin x y) (h' : Twin x' y) (commands : List Command) :
    List.Forall₂ Step.Alike (x.runAll commands) (x'.runAll commands) := by
  induction commands generalizing x x' y with
  | nil => exact .nil
  | cons c commands ih =>
    obtain ⟨hreply, htwin⟩ := h.renewed.run c
    obtain ⟨hreply', htwin'⟩ := h'.renewed.run c
    have hagree := htwin.agree.trans htwin'.agree.symm
    rw [runAll_cons, runAll_cons]
    refine .cons ?_ (ih htwin htwin')
    exact ⟨hreply.trans hreply'.symm, LogEvent.perm_sorted hagree.work.log,
      htwin.runtime.trans htwin'.runtime.symm, hagree⟩

end Session

namespace Catalog

def Action.isSweep : Action → Bool
  | .background .sweep => true
  | _ => false

theorem Action.eq_of_isSweep {a : Action} (h : a.isSweep) : a = .background .sweep := by
  cases a with
  | background b =>
    cases b with
    | move m => exact nomatch h
    | sweep => rfl
  | _ => exact nomatch h

/-- Two catalogs with policies that differ in the interval of their sweeps alone cannot be told apart. If
both take the same actions but for sweeps, which each of them takes at any moments of its own, then every
action is noticed alike, and after all of them the catalogs agree: but for the sweeps to come, the entries
that are no longer fresh and what sweeps have logged they are the same. If both are driven by the same
commands, then each command has the same reply, and the catalogs agree after each. -/
theorem sweeps_unnoticed (policy : Policy) (interval interval' : Nat) (remote : Remote) :
    let s := new { policy with sweepEvery := interval } remote
    let s' := new { policy with sweepEvery := interval' } remote
    let sparesSweeps (a : Action) : Bool := !a.isSweep
    (∀ actions actions' : List Action, actions.filter sparesSweeps = actions'.filter sparesSweeps →
      s.watch sparesSweeps id actions = s'.watch sparesSweeps id actions' ∧
        (s.run actions).standing = (s'.run actions').standing ∧
        (s.run actions).Agree True (s'.run actions')) ∧
    ∀ commands : List Session.Command, List.Forall₂ Session.Step.Alike
      (Session.runAll { catalog := s } commands) (Session.runAll { catalog := s' } commands) := by
  intro s s' sparesSweeps
  have hagree (u v : Nat) : (new { policy with sweepEvery := u } remote).Agree True
      (new { policy with sweepEvery := v } remote) := ⟨rfl, rfl, .refl _, fun _ => rfl, rfl⟩
  constructor
  · intro actions actions' hsame
    have hsweep (x y : Catalog) (a : Action) (h : x.Agree True y) (ha : sparesSweeps a = false) :
        (x.act a).Agree True y := by
      obtain rfl : a = .background .sweep := Action.eq_of_isSweep (by simpa [sparesSweeps] using ha)
      exact x.agree_sweep.trans h
    have hspare (x y : Catalog) (a : Action) (h : x.Agree True y) (_ : sparesSweeps a) :
        x.notice a = y.notice a ∧ (x.act a).Agree True (y.act a) :=
      ⟨h.notice a, h.act fun _ => trivial⟩
    obtain ⟨hwatch, hrun⟩ := watch_filter sparesSweeps id hsweep hspare (hagree interval interval') actions
    obtain ⟨hwatch', hrun'⟩ := watch_filter sparesSweeps id hsweep hspare (.refl s') actions'
    rw [hsame] at hwatch hrun
    have hend := hrun.trans hrun'.symm
    exact ⟨hwatch.trans hwatch'.symm, hend.standing, hend⟩
  · intro commands
    have htwin (u : Nat) : Session.Twin { catalog := new { policy with sweepEvery := u } remote }
        { catalog := new { policy with sweepEvery := 0 } remote } :=
      ⟨rfl, hagree u 0, ⟨rfl, rfl⟩, fun _ => ⟨steady_new _ _, steady_new _ _⟩⟩
    exact Session.alike_runAll (htwin interval) (htwin interval') commands

/-- Only one of two catalogs is swept when an entry has gone stale, and only its log tells so. -/
theorem sweeps_unnoticed_of_purge :
    let remote := answering [("server", ["a.log"])]
    let s := new { Policy.ofHours 1 with sweepEvery := 1000 } remote
    let s' := new { Policy.ofHours 1 with sweepEvery := 7200000 } remote
    let fetched : List Action := [.start true, .names "server" "host" "east"] ++ firstFetch ++
      [.elapse 3600000]
    let actions := fetched ++ [.background .sweep, .names "server" "host" "east"]
    let actions' := fetched ++ [.names "server" "host" "east"]
    let sparesSweeps (a : Action) : Bool := !a.isSweep
    actions.filter sparesSweeps = actions'.filter sparesSweeps ∧
      (s.run actions).work.log.any LogEvent.isPurged ∧
      ¬(s'.run actions').work.log.any LogEvent.isPurged ∧
      (s.run actions).standing = (s'.run actions').standing := by
  intro remote s s' fetched actions actions' sparesSweeps
  have hsame : actions.filter sparesSweeps = actions'.filter sparesSweeps := rfl
  have hunnoticed := (sweeps_unnoticed (Policy.ofHours 1) 1000 7200000 remote).1 actions actions' hsame
  exact ⟨hsame, by decide +kernel, by decide +kernel, hunnoticed.2.1⟩

end Catalog
end LogCatalog
