import LogCatalog.Cache
import LogCatalog.Remote
import Std.Data.ExtTreeSet

/-!
# Fetches

A fetch asks for the listing of one host. It notes the epoch of the cache of file names when it is
made, and what it brings is stored for every component listed, not only for the requested one, unless
the cache was cleared since.
-/
namespace LogCatalog

/-- Duplicates do not count, and the names are listed by code point. -/
abbrev NameSet := Std.ExtTreeSet String

structure Request where
  component : String
  host : String
  cluster : String
deriving DecidableEq

def Request.key (r : Request) : Key := .ofPair r.component r.host

/-- No two fetches have the same ticket. -/
structure Fetch where
  ticket : Nat
  request : Request
  epoch : UInt64
deriving DecidableEq

def Fetch.key (f : Fetch) : Key := f.request.key

inductive Outcome where
  /-- So many components were stored. -/
  | stored (entries : Nat)
  /-- The cache had been cleared meanwhile. -/
  | discarded
  | empty
  | failed
  | timedOut
  | noController
  | noCluster
deriving DecidableEq

/-- The outcomes that count against the requested component. That nothing can be reached is not its
failure. -/
def Outcome.isFailure : Outcome → Bool
  | .empty | .failed | .timedOut => true
  | _ => false

/-- Writes the rows one by one and stops at the first one that is refused. -/
def Cache.fill (c : Cache NameSet) (epoch : UInt64) (now : Nat) (host : String) :
    List (String × List String) → Nat → Outcome × Cache NameSet
  | [], entries => (.stored entries, c)
  | (component, names) :: rows, entries =>
    match c.insertAt epoch now (.ofPair component host) (Std.ExtTreeSet.ofList names) with
    | (true, next) => next.fill epoch now host rows (entries + 1)
    | (false, next) => (.discarded, next)

end LogCatalog
