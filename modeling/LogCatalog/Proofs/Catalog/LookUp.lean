import LogCatalog.Catalog
import LogCatalog.Proofs.Cache.Record
import LogCatalog.Proofs.Pool.Outstanding
import LogCatalog.Proofs.Registry.Rulings

/-!
# What a lookup does

A lookup of file names ends in one of five ways, decided by the cache first, the failure count second,
the marker third and the pool last. A lookup of an address changes nothing that fetches share but
counters and the remote side.
-/
namespace LogCatalog

namespace Catalog

/-- The workspace after the key was looked up in the cache and the lookup was counted. -/
def looked (s : Catalog) (k : Key) (tallies : List Tally) : Workspace :=
  { s.work with
    names := (s.work.names.get s.now k).2
    counters := tallies.foldl Counters.record s.work.counters }

/-- The registry with the marker of the key taken. -/
def marking (s : Catalog) (k : Key) : Registry :=
  { s.work.registry with marks := s.work.registry.marks.insert k }

/-- The fetch that a request gets if it is admitted now. -/
def fetchFor (s : Catalog) (r : Request) : Fetch := ⟨s.work.issued, r, s.work.names.epoch⟩

/-- The request is for a key that is neither cached nor marked, of a component that is not barred. -/
structure Admits (s : Catalog) (r : Request) : Prop where
  missing : s.work.names.find? s.now r.key = none
  unbarred : ¬s.work.registry.isBarred r.component
  unmarked : ¬s.work.registry.isMarked r.key

/-- How a lookup ends: its answer and the catalog after it. -/
inductive Served (s : Catalog) (r : Request) : Option NameSet → Catalog → Prop where
  | hit {names : NameSet} (found : s.work.names.find? s.now r.key = some names) :
      Served s r (some names) { s with work := s.looked r.key [.hit] }
  | turnedAway (missing : s.work.names.find? s.now r.key = none)
      (barred : s.work.registry.isBarred r.component) :
      Served s r none { s with work := s.looked r.key [.miss, .turnedAway] }
  | joined (missing : s.work.names.find? s.now r.key = none)
      (unbarred : ¬s.work.registry.isBarred r.component) (marked : s.work.registry.isMarked r.key) :
      Served s r none { s with work := s.looked r.key [.miss, .joined] }
  | queued (admits : s.Admits r) (accepting : s.pool.accepting) (looping : s.pool.looping) :
      Served s r none
        { s with
          work := { s.looked r.key [.miss, .queued] with
            registry := s.marking r.key
            issued := s.work.issued + 1 }
          pool := { s.pool with
            queue := s.pool.queue ++ [s.fetchFor r]
            unfinished := s.pool.unfinished + 1 } }
  | refused (admits : s.Admits r) (shut : ¬(s.pool.accepting ∧ s.pool.looping))
      (events : List LogEvent) :
      Served s r none
        { s with
          work := { s.looked r.key [.miss] with
            registry := (s.marking r.key).release r.key
            issued := s.work.issued + 1
            log := s.work.log ++ events } }

variable {s : Catalog}

theorem lookUpNames_of_not_running (h : s.phase ≠ .running) (component host cluster : String) :
    s.lookUpNames component host cluster = (none, s) := by
  simp [lookUpNames, h]

theorem lookUpNames_of_running (h : s.phase = .running) (r : Request) :
    s.lookUpNames r.component r.host r.cluster =
      match s.work.names.find? s.now r.key with
      | some names => (some names, { s with work := s.looked r.key [.hit] })
      | none => (none, { s with work := s.looked r.key [] }.askFor r) := by
  rw [lookUpNames, if_pos h, ← Cache.get_fst]
  rfl

/-- A fetch for a marked key is queued, or it is dropped with its marker. -/
theorem served_enqueue {r : Request} (admits : s.Admits r) :
    Served s r none
      ({ s with work := { s.looked r.key [.miss] with registry := s.marking r.key } }.enqueue r) := by
  by_cases ha : s.pool.accepting
  · by_cases hl : s.pool.looping
    · have hf : s.fetchFor r = ⟨s.work.issued, r, (s.looked r.key []).names.epoch⟩ := by
        rw [fetchFor, looked, Cache.get_epoch]
      have hq := Served.queued admits ha hl
      rw [hf] at hq
      simp only [enqueue, Pool.enqueue_of_looping _ _ ha hl]
      exact hq
    · simp only [enqueue, Pool.enqueue_of_not_looping _ _ ha hl]
      have hlog (log events : List LogEvent) (e : LogEvent) :
          log ++ events ++ [e] = log ++ (events ++ [e]) := List.append_assoc _ _ _
      simp only [Workspace.emit, hlog]
      exact .refused admits (fun h => hl h.2) _
  · simp only [enqueue, Pool.enqueue_of_not_accepting _ _ ha]
    exact .refused admits (fun h => ha h.1) _

theorem served_lookUpNames (h : s.phase = .running) (r : Request) :
    Served s r (s.lookUpNames r.component r.host r.cluster).1
      (s.lookUpNames r.component r.host r.cluster).2 := by
  rw [lookUpNames_of_running h]
  cases missing : s.work.names.find? s.now r.key with
  | some names => exact .hit missing
  | none =>
    have hr : ((s.looked r.key []).count .miss).registry = s.work.registry := rfl
    simp only [askFor, hr]
    by_cases barred : s.work.registry.isBarred r.component
    · rw [Registry.request_of_barred _ barred]
      exact .turnedAway missing barred
    · by_cases marked : s.work.registry.isMarked r.key
      · rw [Registry.request_of_marked barred marked]
        exact .joined missing barred marked
      · rw [Registry.request_of_admitted barred marked]
        exact served_enqueue ⟨missing, barred, marked⟩

end Catalog
end LogCatalog
