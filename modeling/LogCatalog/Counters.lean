/-!
# Counters

How lookups were served and how fetches ended. Each counter wraps at 2^64.
-/
namespace LogCatalog

structure Counters where
  hits : UInt64 := 0
  misses : UInt64 := 0
  queued : UInt64 := 0
  joined : UInt64 := 0
  turnedAway : UInt64 := 0
  completed : UInt64 := 0
  failed : UInt64 := 0
  tailHits : UInt64 := 0
  tailMisses : UInt64 := 0
deriving DecidableEq, Inhabited

/-- What a counter counts. -/
inductive Tally where
  | hit
  | miss
  | queued
  | joined
  | turnedAway
  | completed
  | failed
  | tailHit
  | tailMiss
deriving DecidableEq

namespace Counters

def get (c : Counters) : Tally → UInt64
  | .hit => c.hits
  | .miss => c.misses
  | .queued => c.queued
  | .joined => c.joined
  | .turnedAway => c.turnedAway
  | .completed => c.completed
  | .failed => c.failed
  | .tailHit => c.tailHits
  | .tailMiss => c.tailMisses

def record (c : Counters) : Tally → Counters
  | .hit => { c with hits := c.hits + 1 }
  | .miss => { c with misses := c.misses + 1 }
  | .queued => { c with queued := c.queued + 1 }
  | .joined => { c with joined := c.joined + 1 }
  | .turnedAway => { c with turnedAway := c.turnedAway + 1 }
  | .completed => { c with completed := c.completed + 1 }
  | .failed => { c with failed := c.failed + 1 }
  | .tailHit => { c with tailHits := c.tailHits + 1 }
  | .tailMiss => { c with tailMisses := c.tailMisses + 1 }

theorem get_record (c : Counters) (t u : Tally) :
    (c.record t).get u = if u = t then c.get u + 1 else c.get u := by
  cases t <;> cases u <;> rfl

/-- The order in which a snapshot lists the counters. -/
def toList (c : Counters) : List UInt64 :=
  [.hit, .miss, .queued, .joined, .turnedAway, .completed, .failed, .tailHit,
    .tailMiss].map c.get

/-- The counters after each of the recordings, where `none` records nothing. -/
def history (c : Counters) : List (Option Tally) → List Counters
  | [] => []
  | t :: ts =>
    let next := (t.map c.record).getD c
    next :: next.history ts

end Counters
end LogCatalog
