import LogCatalog.Proofs.Catalog.Sweeps
import LogCatalog.Proofs.Settings.Layers

/-!
# Settings that a catalog opens with

Settings that were loaded are in their ranges, and a catalog takes them as they are but for two zeros.
Settings that nobody checked can hold anything that their types hold; what a catalog takes from them is in
range all the same. So a catalog that is idle can always be started, its pool has a permit to give and no
more than there can be, and its sweeps are some time apart.
-/
namespace LogCatalog

namespace Settings

variable (s : Settings)

theorem one_le_timeout : 1 ≤ s.policy.timeout := Nat.le_max_right _ _

theorem one_le_workers : 1 ≤ s.policy.workers := Nat.le_max_left _ _

theorem workers_le : s.policy.workers ≤ 256 :=
  Nat.max_le.2 ⟨by decide, Nat.min_le_right _ _⟩

theorem le_sweepEvery : 1000 ≤ s.policy.sweepEvery := by
  have h : 1 ≤ max s.sweepSeconds.toNat 1 := Nat.le_max_right _ _
  exact Nat.mul_le_mul_right 1000 h

theorem le_sweepPeriod : 1000 ≤ s.policy.sweepPeriod := by
  unfold Policy.sweepPeriod
  split
  · exact s.le_sweepEvery
  · decide

theorem workers_le_maxPermits : s.policy.workers ≤ Pool.maxPermits :=
  Nat.le_trans s.workers_le (by decide)

/-- There are permits for all workers. -/
theorem permits_workers : Pool.permits s.policy.workers = s.policy.workers := by
  rw [Pool.permits, Nat.min_eq_left s.workers_le_maxPermits, Nat.max_eq_right s.one_le_workers]

/-- The seconds of the lifetime fit into a word. -/
theorem toNat_seconds : (s.cacheHours.toUInt64 * 3600).toNat = s.cacheHours.toNat * 3600 := by
  have hlt := s.cacheHours.toNat_lt
  rw [UInt64.toNat_mul, UInt32.toNat_toUInt64]
  exact Nat.mod_eq_of_lt (Nat.lt_trans (Nat.mul_lt_mul_of_pos_right hlt (by decide)) (by decide))

theorem lifetime_eq : s.policy.lifetime = (s.cacheHours.toUInt64 * 3600).toNat * 1000 := by
  rw [toNat_seconds, Nat.mul_assoc]
  rfl

variable {s}

/-- Settings in range are taken as they are, but no workers count as one and no time between sweeps as a
second. -/
theorem policy_eq (h : ∀ f : Field, f.InRange (s.get f)) :
    s.policy =
      { expireHours := s.cacheHours.toNat
        lifetime := s.cacheHours.toNat * 3600 * 1000
        timeout := s.fetchTimeoutMs.toNat
        workers := if s.fetchWorkers = 0 then 1 else s.fetchWorkers.toNat
        sweepEvery := (if s.sweepSeconds = 0 then 1 else s.sweepSeconds.toNat) * 1000 } := by
  have htimeout : 1 ≤ s.fetchTimeoutMs.toNat := h .fetchTimeoutMs
  have hworkers : s.fetchWorkers.toNat ≤ 256 := h .fetchWorkers
  have orOne (n : UInt64) : max n.toNat 1 = if n = 0 then 1 else n.toNat := by
    split
    · next zero => rw [zero]; rfl
    · next filled =>
      have hne : n.toNat ≠ 0 := fun hn => filled (UInt64.toNat_inj.1 hn)
      exact Nat.max_eq_left (Nat.one_le_iff_ne_zero.2 hne)
  have hmost : min s.fetchWorkers.toNat maxWorkers.toNat = s.fetchWorkers.toNat := Nat.min_eq_left hworkers
  rw [policy, hmost, Nat.max_eq_left htimeout, Nat.max_comm, orOne, orOne, Nat.mul_assoc]

end Settings

namespace Catalog

variable {s : Catalog}

/-- An idle catalog is opened by a start. -/
theorem start_of_idle (idle : s.phase = .idle) (positive : 0 < s.policy.sweepEvery) :
    ∃ s', s.start true = .ok s' ∧ s'.phase = .running ∧ s'.pool = .start s.workers ∧
      s'.sweepAt = some s.now := by
  have hne : s.policy.sweepEvery ≠ 0 := Nat.ne_of_gt positive
  simp [start, idle, hne, emit]

/-- What is loaded is in range, and a catalog takes it as it is, but no workers count as one and no time
between sweeps as a second. Whatever settings hold, loaded or not, the deadline and the time between sweeps
that a catalog takes from them are never zero, it takes at least one and at most 256 workers, and its
lifetime is that of the hours, whose seconds do not overflow. Whatever has happened, it works with these; if
it is idle a start succeeds, and once started it has just as many permits as workers and has sweeps ahead
while it runs. -/
theorem safe_to_start :
    (∀ files env c, Configuration.load files env = .ok c →
      let settings := c.settings
      1 ≤ settings.fetchTimeoutMs.toNat ∧ settings.fetchWorkers.toNat ≤ 256 ∧
      settings.cacheHours.toNat < UInt32.size ∧
      settings.policy =
        { expireHours := settings.cacheHours.toNat
          lifetime := settings.cacheHours.toNat * 3600 * 1000
          timeout := settings.fetchTimeoutMs.toNat
          workers := if settings.fetchWorkers = 0 then 1 else settings.fetchWorkers.toNat
          sweepEvery := (if settings.sweepSeconds = 0 then 1 else settings.sweepSeconds.toNat) * 1000 }) ∧
    ∀ (settings : Settings) (remote : Remote) (actions : List Action),
      let policy := settings.policy
      let seconds := settings.cacheHours.toUInt64 * 3600
      let s := (new policy remote).run actions
      (1 ≤ policy.timeout ∧ 1 ≤ policy.workers ∧ policy.workers ≤ 256 ∧ 1000 ≤ policy.sweepEvery ∧
        1000 ≤ policy.sweepPeriod ∧ seconds.toNat = settings.cacheHours.toNat * 3600 ∧
        policy.lifetime = seconds.toNat * 1000) ∧
      (s.policy = policy ∧ s.work.timeout = policy.timeout ∧ s.work.names.lifetime = policy.lifetime ∧
        s.tails.lifetime = policy.lifetime) ∧
      (s.phase = .idle → ∃ s', s.start true = .ok s' ∧ s'.phase = .running ∧
        s'.pool.free = policy.workers ∧ s'.sweepAt = some s.now) ∧
      (s.phase ≠ .idle → s.pool.free + s.pool.active.length = policy.workers ∧
        policy.workers ≤ Pool.maxPermits) ∧
      (s.phase = .running → ∃ due, s.sweepAt = some due ∧ due ≤ s.now + policy.sweepPeriod) := by
  constructor
  · intro files env c loaded settings
    have hrange := Configuration.inRange_of_load loaded
    exact ⟨hrange .fetchTimeoutMs, hrange .fetchWorkers, settings.cacheHours.toNat_lt,
      Settings.policy_eq hrange⟩
  · intro settings remote actions policy seconds s
    have positive : 0 < policy.sweepEvery := Nat.lt_of_lt_of_le (by decide) settings.le_sweepEvery
    have htimely : Timely policy s := timely_run policy positive remote actions
    have hattended := (attended_new policy remote).run (tidy_new policy remote) actions
    have hmax : max policy.workers 1 = policy.workers := Nat.max_eq_left settings.one_le_workers
    have hpermits : Pool.permits (max policy.workers 1) = policy.workers := by
      rw [hmax]
      exact settings.permits_workers
    refine ⟨⟨settings.one_le_timeout, settings.one_le_workers, settings.workers_le, settings.le_sweepEvery,
      settings.le_sweepPeriod, settings.toNat_seconds, settings.lifetime_eq⟩,
      ⟨htimely.following, hattended.timeout, htimely.names, htimely.tails⟩, ?_, ?_, ?_⟩
    · intro idle
      obtain ⟨s', hstart, hphase, hpool, hsweep⟩ := start_of_idle idle (htimely.following ▸ positive)
      have hfree : s'.pool.free = Pool.permits (max s.policy.workers 1) := congrArg Pool.free hpool
      rw [htimely.following, hpermits] at hfree
      exact ⟨s', hstart, hphase, hfree, hsweep⟩
    · intro started
      exact ⟨(hattended.staffed started).permits.trans hpermits, settings.workers_le_maxPermits⟩
    · intro running
      obtain ⟨due, hdue, hnear, -⟩ := htimely.swept running
      exact ⟨due, hdue, hnear⟩

/-- No workers and no time between sweeps are loaded as they are, and a catalog starts with one worker and
sweeps every second. -/
theorem safe_to_start_of_zeros :
    let env : Environment := .ofList [("AMBARI_LOGSEARCH__FETCH_WORKERS", "0"),
      ("AMBARI_LOGSEARCH__MAINTENANCE_INTERVAL_SECS", "0")]
    let loaded := Configuration.load [none] (some env)
    ∃ c, loaded = .ok c ∧ c.settings = { fetchWorkers := 0, sweepSeconds := 0 } ∧
      c.settings.policy.workers = 1 ∧ c.settings.policy.sweepEvery = 1000 ∧
      ∃ s, (new c.settings.policy (answering [])).start true = .ok s ∧ s.phase = .running ∧
        s.pool.free = 1 := by
  intro env loaded
  have hzeros : loaded.toOption.map Configuration.settings = some { fetchWorkers := 0, sweepSeconds := 0 } := by
    decide +kernel
  cases hloaded : loaded with
  | error cause =>
    rw [hloaded] at hzeros
    exact nomatch hzeros
  | ok c =>
    rw [hloaded] at hzeros
    have hsettings : c.settings = { fetchWorkers := 0, sweepSeconds := 0 } := Option.some.inj hzeros
    obtain ⟨hloads, hstarts⟩ := safe_to_start
    obtain ⟨-, -, -, hpolicy⟩ := hloads [none] (some env) c hloaded
    have hworkers : c.settings.policy.workers = 1 := by rw [hpolicy, hsettings]; rfl
    have hsweeps : c.settings.policy.sweepEvery = 1000 := by rw [hpolicy, hsettings]; rfl
    obtain ⟨-, -, hstart, -⟩ := hstarts c.settings (answering []) []
    obtain ⟨s, hopen, hrunning, hfree, -⟩ := hstart rfl
    exact ⟨c, rfl, hsettings, hworkers, hsweeps, s, hopen, hrunning, hfree.trans hworkers⟩

end Catalog
end LogCatalog
