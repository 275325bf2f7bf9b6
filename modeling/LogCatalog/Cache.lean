import LogCatalog.Key
import Std.Data.ExtTreeMap

/-!
# Caches of expiring entries

An entry is fresh for less than the cache's lifetime after it was written. An entry that is no
longer fresh is dropped when a lookup meets it, or when all stale entries are dropped. Clearing the cache
begins a new epoch, so that a writer who noted an older epoch is refused.

Times are counted in one unit throughout a cache, and the clock is handed in.
-/
namespace LogCatalog

structure Entry (α : Type) where
  value : α
  writtenAt : Nat

def Entry.isFreshAt {α : Type} (e : Entry α) (lifetime now : Nat) : Bool :=
  now - e.writtenAt < lifetime

structure Cache (α : Type) where
  lifetime : Nat
  epoch : UInt64 := 0
  entries : Std.ExtTreeMap Key (Entry α) := ∅

namespace Cache
variable {α : Type}

/-- The value that a lookup at `now` finds. -/
def find? (c : Cache α) (now : Nat) (k : Key) : Option α :=
  match c.entries[k]? with
  | some e => if e.isFreshAt c.lifetime now then some e.value else none
  | none => none

/-- A lookup drops the entry it meets if that entry is no longer fresh. -/
def get (c : Cache α) (now : Nat) (k : Key) : Option α × Cache α :=
  match c.entries[k]? with
  | some e =>
    if e.isFreshAt c.lifetime now then (some e.value, c)
    else (none, { c with entries := c.entries.erase k })
  | none => (none, c)

def contains (c : Cache α) (now : Nat) (k : Key) : Bool × Cache α :=
  let (value, next) := c.get now k
  (value.isSome, next)

def insert (c : Cache α) (now : Nat) (k : Key) (value : α) : Cache α :=
  { c with entries := c.entries.insert k ⟨value, now⟩ }

/-- Writes only in the epoch that the writer noted; the answer says whether it wrote. -/
def insertAt (c : Cache α) (epoch : UInt64) (now : Nat) (k : Key) (value : α) : Bool × Cache α :=
  if c.epoch = epoch then (true, c.insert now k value) else (false, c)

def clear (c : Cache α) : Cache α :=
  { c with epoch := c.epoch + 1, entries := ∅ }

/-- Drops every entry that is no longer fresh and counts them. -/
def dropStale (c : Cache α) (now : Nat) : Nat × Cache α :=
  let kept := c.entries.filter fun _ e => e.isFreshAt c.lifetime now
  (c.entries.size - kept.size, { c with entries := kept })

/-- Counts expired entries that nobody has dropped yet as well. -/
def size (c : Cache α) : Nat := c.entries.size

def isEmpty (c : Cache α) : Bool := c.entries.isEmpty

end Cache
end LogCatalog
