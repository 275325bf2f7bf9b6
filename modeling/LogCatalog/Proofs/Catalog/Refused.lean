import LogCatalog.Proofs.Cache.Fresh
import LogCatalog.Proofs.Catalog.Accounts
import LogCatalog.Proofs.Catalog.Batch
import LogCatalog.Proofs.Catalog.Stranded

/-!
# Refused fetches

A pool that was closed takes no fetch, and neither does one whose loop has gone. The marker of a fetch is
taken before the fetch is refused, and it is dropped with the fetch. So a lookup that the pool refuses is
counted as a miss and warned of, and leaves the catalog as it was; any number of them do, and a catalog
that lost its runtime never marks a key again.
-/
namespace LogCatalog

namespace Pool

/-- The pool takes no fetch: it was closed, or its loop has gone. -/
def Shut (p : Pool) : Prop := ¬(p.accepting ∧ p.looping)

/-- The warnings about a fetch for the key that is refused. -/
def warnings (p : Pool) (k : Key) : List LogEvent :=
  (if p.accepting then [.queueClosed] else []) ++ [.requestDropped k]

variable {p : Pool}

theorem enqueue_of_shut (w : Workspace) (f : Fetch) (shut : p.Shut) :
    p.enqueue w f =
      (false, (w.release f.key).emit (if p.accepting then [.queueClosed] else []), p) := by
  by_cases accepting : p.accepting
  · have gone : ¬p.looping := fun looping => shut ⟨accepting, looping⟩
    rw [enqueue_of_not_looping w f accepting gone, if_pos accepting]
  · rw [enqueue_of_not_accepting w f accepting, if_neg accepting, Workspace.emit, List.append_nil]

end Pool

namespace Catalog

/-- The catalog after lookups that were refused: misses and warnings are added, tickets are used up, and the
cache of names may have dropped what is stale. -/
structure Refused (s : Catalog) (requests : List Request) (s' : Catalog) : Prop where
  phase : s'.phase = s.phase
  now : s'.now = s.now
  pool : s'.pool = s.pool
  registry : s'.work.registry = s.work.registry
  fresh : s'.work.names.fresh s.now = s.work.names.fresh s.now
  tails : s'.tails = s.tails
  remote : s'.work.remote = s.work.remote
  counters : s'.work.counters = (requests.map fun _ => .miss).foldl Counters.record s.work.counters
  log : s'.work.log = s.work.log ++ requests.flatMap fun r => s.pool.warnings r.key

variable {s s' s'' : Catalog} {requests more : List Request} {r : Request}

theorem enqueue_of_shut (s : Catalog) (r : Request) (shut : s.pool.Shut) :
    s.enqueue r =
      { s with
        work := { s.work with
          registry := s.work.registry.release r.key
          issued := s.work.issued + 1
          log := s.work.log ++ s.pool.warnings r.key } } := by
  simp only [enqueue, Pool.enqueue_of_shut _ _ shut, Pool.warnings, ← List.append_assoc]
  rfl

/-- A lookup takes the marker, is refused and gives the marker back. -/
theorem lookUpNames_of_shut (running : s.phase = .running) (shut : s.pool.Shut) (admits : s.Admits r) :
    s.lookUpNames r.component r.host r.cluster =
      (none, { s with
        work := { s.looked r.key [.miss] with
          issued := s.work.issued + 1
          log := s.work.log ++ s.pool.warnings r.key } }) := by
  have hregistry : ((s.looked r.key []).count .miss).registry = s.work.registry := rfl
  rw [lookUpNames_of_running running r, admits.missing]
  simp only [askFor, hregistry, Registry.request_of_admitted admits.unbarred admits.unmarked]
  rw [enqueue_of_shut]
  · simp only [Registry.release_insert admits.unmarked]
    rfl
  · exact shut

theorem refused_lookup (running : s.phase = .running) (shut : s.pool.Shut) (admits : s.Admits r) :
    s.Refused [r] (s.act r.lookup) := by
  have hact : s.act r.lookup = (s.lookUpNames r.component r.host r.cluster).2 := rfl
  rw [hact, lookUpNames_of_shut running shut admits]
  exact {
    phase := rfl
    now := rfl
    pool := rfl
    registry := rfl
    fresh := Cache.fresh_get _ _ _
    tails := rfl
    remote := rfl
    counters := rfl
    log := by simp }

namespace Refused

theorem refl (s : Catalog) : s.Refused [] s where
  phase := rfl
  now := rfl
  pool := rfl
  registry := rfl
  fresh := rfl
  tails := rfl
  remote := rfl
  counters := rfl
  log := by simp

theorem trans (h : s.Refused requests s') (h' : s'.Refused more s'') :
    s.Refused (requests ++ more) s'' where
  phase := h'.phase.trans h.phase
  now := h'.now.trans h.now
  pool := h'.pool.trans h.pool
  registry := h'.registry.trans h.registry
  fresh := by
    have hlater := h'.fresh
    rw [h.now] at hlater
    exact hlater.trans h.fresh
  tails := h'.tails.trans h.tails
  remote := h'.remote.trans h.remote
  counters := by rw [h'.counters, h.counters, List.map_append, List.foldl_append]
  log := by rw [h'.log, h.log, h.pool, List.flatMap_append, List.append_assoc]

/-- What was admitted before is admitted again. -/
theorem admits (h : s.Refused requests s') (ha : s.Admits r) : s'.Admits r where
  missing := by
    rw [h.now, Cache.find?_eq h.fresh]
    exact ha.missing
  unbarred := by
    rw [h.registry]
    exact ha.unbarred
  unmarked := by
    rw [h.registry]
    exact ha.unmarked

end Refused

/-- Lookups that are refused one after the other. -/
theorem refused_runBatch (running : s.phase = .running) (shut : s.pool.Shut)
    (admits : ∀ r ∈ requests, s.Admits r) :
    s.Refused requests (s.runBatch requests) ∧ s.answers requests = requests.map fun _ => none := by
  induction requests generalizing s with
  | nil => exact ⟨.refl s, rfl⟩
  | cons r requests ih =>
    have hfirst : s.Refused [r] (s.act r.lookup) :=
      refused_lookup running shut (admits r List.mem_cons_self)
    have hrest := ih (hfirst.phase.trans running) (hfirst.pool ▸ shut) fun q hq =>
      hfirst.admits (admits q (List.mem_cons_of_mem r hq))
    constructor
    · exact hfirst.trans hrest.1
    · rw [answers, hrest.2, lookUpNames_of_shut running shut (admits r List.mem_cons_self)]
      rfl

/-- A running catalog without a loop has lost its runtime. -/
theorem bereft_of_not_looping (policy : Policy) (remote : Remote) (events : List Event)
    (running : ((new policy remote).live events).phase = .running)
    (gone : ¬((new policy remote).live events).pool.looping) :
    ((new policy remote).live events).Bereft ((new policy remote).live events).pool.unfinished := by
  rcases (sound_new policy remote).live events with ⟨sound, -⟩ | bereft
  · exact absurd (sound.serving running).2 gone
  · exact bereft.unfinished ▸ bereft

/-- A pool that was closed or has no loop refuses every fetch. Then it stays as it is with its count of
unfinished fetches, the marker of the fetch is free, and nothing else that fetches share has changed but the
log. In a running catalog with such a pool a lookup for a key that is neither cached nor marked, of a
component that has failed fewer than ten times, finds nothing and is counted as a miss. Any number of such
lookups, for one key or for many, leave the marked keys, the failure counts, what is fresh in both caches,
the number of unfinished fetches and all other counters as they were, and every further one does the same.
Once a running catalog has lost its loop, no key is marked and none will be, whatever happens. -/
theorem refused_without_trace :
    (∀ (w : Workspace) (p : Pool) (f : Fetch), ¬(p.accepting ∧ p.looping) →
      ∃ registry log, p.enqueue w f = (false, { w with registry, log }, p) ∧
        (∀ k, registry.isMarked k ↔ k ≠ f.key ∧ w.registry.isMarked k) ∧
        registry.failures = w.registry.failures) ∧
    (∀ (s : Catalog) (requests : List Request), s.phase = .running →
      ¬(s.pool.accepting ∧ s.pool.looping) →
      (∀ r ∈ requests, s.work.names.find? s.now r.key = none ∧ ¬s.isMarked r.component r.host ∧
        s.failuresOf r.component < 10) →
      let s' := s.runBatch requests
      s.answers requests = requests.map (fun _ => none) ∧
      s'.markedKeys = s.markedKeys ∧
      (∀ component, s'.failuresOf component = s.failuresOf component) ∧
      s'.work.names.fresh s.now = s.work.names.fresh s.now ∧
      s'.tails = s.tails ∧
      s'.unfinishedFetches = s.unfinishedFetches ∧
      s'.work.counters.misses = s.work.counters.misses + UInt64.ofNat requests.length ∧
      (∀ t ≠ .miss, s'.work.counters.get t = s.work.counters.get t) ∧
      ∀ r ∈ requests, s'.Admits r ∧ s'.Refused [r] (s'.act r.lookup)) ∧
    ∀ (policy : Policy) (remote : Remote) (events more : List Event),
      let s := (new policy remote).live events
      s.phase = .running → ¬s.pool.looping →
        (s.live more).markedKeys = [] ∧ (s.live more).pool.unfinished = s.pool.unfinished := by
  refine ⟨fun w p f shut => ?_, fun s requests running shut hadmitted => ?_,
    fun policy remote events more => ?_⟩
  · refine ⟨w.registry.release f.key, _, Pool.enqueue_of_shut w f shut, fun k => ?_, rfl⟩
    rw [Registry.isMarked_release, ne_comm]
  · intro s'
    have admits (r : Request) (hr : r ∈ requests) : s.Admits r := admits_iff.2 (hadmitted r hr)
    obtain ⟨h, hanswers⟩ := refused_runBatch running shut admits
    change s.Refused requests s' at h
    have hcount (t : Tally) : s'.work.counters.get t =
        s.work.counters.get t + UInt64.ofNat ((requests.map fun _ => Tally.miss).count t) := by
      rw [h.counters, Counters.get_foldl_record]
    refine ⟨hanswers, ?_, ?_, h.fresh, h.tails, ?_, ?_, ?_, ?_⟩
    · rw [markedKeys, h.registry, markedKeys]
    · intro component
      rw [failuresOf, h.registry, failuresOf]
    · rw [unfinishedFetches, h.phase, h.pool, unfinishedFetches]
    · have hmisses := hcount .miss
      rw [List.map_const', List.count_replicate_self] at hmisses
      exact hmisses
    · intro t ht
      rw [hcount, List.map_const', List.count_replicate, if_neg (by simpa using ht.symm)]
      simp
    · intro r hr
      have hagain := h.admits (admits r hr)
      exact ⟨hagain, refused_lookup (h.phase.trans running) (h.pool ▸ shut) hagain⟩
  · intro s running gone
    obtain ⟨bereft, -⟩ := (bereft_of_not_looping policy remote events running gone).live more
    have hnone : (s.live more).markedKeys = [] :=
      List.eq_nil_iff_forall_not_mem.2 fun k hk => bereft.unmarked k (Registry.mem_markedKeys.1 hk)
    exact ⟨hnone, bereft.unfinished⟩

/-- The runtime goes away while a fetch is queued. Two lookups of another key are refused after that. -/
theorem refused_without_trace_of_loss :
    let s := (new (.ofHours 1) (answering [])).live
      [.action (.start true), .action (.names "server" "host" "east"), .runtimeLost]
    let requests : List Request := [⟨"agent", "host", "east"⟩, ⟨"agent", "host", "west"⟩]
    s.phase = .running ∧ ¬(s.pool.accepting ∧ s.pool.looping) ∧
      (∀ r ∈ requests, s.work.names.find? s.now r.key = none ∧ ¬s.isMarked r.component r.host ∧
        s.failuresOf r.component < 10) ∧
      s.answers requests = [none, none] ∧ (s.runBatch requests).markedKeys = [] ∧
      (s.runBatch requests).work.counters = { misses := 3, queued := 1 } := by
  intro s requests
  have hadmitted : ∀ r ∈ requests, s.work.names.find? s.now r.key = none ∧
      ¬s.isMarked r.component r.host ∧ s.failuresOf r.component < 10 := by
    intro r hr
    refine ⟨Option.isNone_iff_eq_none.1 ?_, ?_⟩ <;> revert r <;> decide
  obtain ⟨hanswers, hmarked, -⟩ := refused_without_trace.2.1 s requests (by decide) (by decide) hadmitted
  obtain ⟨hnone, -⟩ := refused_without_trace.2.2 (.ofHours 1) (answering [])
    [.action (.start true), .action (.names "server" "host" "east"), .runtimeLost] [] (by decide) (by decide)
  exact ⟨by decide, by decide, hadmitted, hanswers, hmarked.trans hnone, by decide⟩

end Catalog
end LogCatalog
