import LogCatalog.Catalog
import LogCatalog.Clockwork
import LogCatalog.Pool.Schedule

/-!
# Running the background of a catalog

The background of a catalog goes by the clock. While the clock stands, the steps of the pool are taken before a
sweep.
-/
namespace LogCatalog.Catalog

/-- The background step that is taken next, unless none can be taken. -/
def next? (s : Catalog) : Option Background :=
  match Pool.next? s.work s.pool with
  | some m => some (.move m)
  | none => if s.sweepAt.any (· ≤ s.now) then some .sweep else none

/-- Nothing can happen before the clock moves or a caller acts. -/
def Settled (s : Catalog) : Prop := s.next? = none

/-- The instants at which something becomes due. -/
def wakes (s : Catalog) : List Nat := s.sweepAt.toList ++ s.pool.wakes

def clockwork : Clockwork Catalog where
  now := now
  next? s := s.next?.map fun b => s.act (.background b)
  backlog s := s.pool.work + 1
  elapse s ms := s.act (.elapse ms)
  wakes := wakes

def settle (s : Catalog) : Catalog := clockwork.settle s

def advance (s : Catalog) (ms : Nat) : Catalog := clockwork.advance s ms

end LogCatalog.Catalog
