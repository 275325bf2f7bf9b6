import LogCatalog.ActiveController
import LogCatalog.FetchError
import Std.Data.ExtTreeMap

/-!
# The remote side

A cluster lists the log files of a host and builds the addresses under which logs are tailed. Each
listing that is asked for follows a plan: it may wait for a gate, then for a while, and then replies.
The plan depends on the host and on how often the cluster was asked for that host before. A cluster
can be reached only through the active controller.
-/
namespace LogCatalog

/-- Components and their log files, each component once. -/
structure Listing where
  rows : List (String × List String)
  distinct : (rows.map Prod.fst).Nodup

namespace Listing

/-- Keeps the last row of each component. -/
def dropEarlier : List (String × List String) → List (String × List String)
  | [] => []
  | row :: rows => if row.1 ∈ rows.map Prod.fst then dropEarlier rows else row :: dropEarlier rows

theorem mem_of_mem_dropEarlier {c : String} :
    ∀ {rows : List (String × List String)},
      c ∈ (dropEarlier rows).map Prod.fst → c ∈ rows.map Prod.fst
  | [], h => h
  | row :: rows, h => by
    rw [dropEarlier] at h
    split at h
    · exact List.mem_cons_of_mem _ (mem_of_mem_dropEarlier h)
    · rcases List.mem_cons.1 h with h | h
      · exact h ▸ List.mem_cons_self
      · exact List.mem_cons_of_mem _ (mem_of_mem_dropEarlier h)

theorem nodup_dropEarlier : ∀ rows, ((dropEarlier rows).map Prod.fst).Nodup
  | [] => List.nodup_nil
  | row :: rows => by
    rw [dropEarlier]
    split
    · exact nodup_dropEarlier rows
    · next h => exact List.nodup_cons.2 ⟨fun m => h (mem_of_mem_dropEarlier m), nodup_dropEarlier rows⟩

def ofRows (rows : List (String × List String)) : Listing :=
  ⟨dropEarlier rows, nodup_dropEarlier rows⟩

end Listing

/-- What a listing that was asked for gives. -/
inductive Answer where
  | files (listing : Listing)
  | nothing
  | failed (error : FetchError)

/-- How a call ends on the remote side: with an answer, never, or by breaking off. -/
inductive Reply where
  | answer (a : Answer)
  | silence
  | panic

structure Plan where
  gate : Option String := none
  delay : Nat := 0
  reply : Reply

structure Cluster where
  /-- The only controller that reaches the cluster, if there is such a restriction. -/
  controller : Option String := none
  plan : (host : String) → (asked : Nat) → Plan
  tailAddress : (base component host : String) → Option String

/-- How often the remote side was called. -/
structure Calls where
  listings : Nat := 0
  tails : Nat := 0
  contacts : Nat := 0
deriving DecidableEq

/-- Gates are kept in the order in which they were opened, and stay open. -/
structure Remote where
  controller : ActiveController
  clusters : String → Option Cluster
  asked : Std.ExtTreeMap String (Std.ExtTreeMap String Nat) := ∅
  opened : List String := []
  calls : Calls := {}

/-- What comes of looking for a cluster. -/
inductive Contact where
  | noController
  | noCluster
  | reached (c : Cluster)

namespace Remote

/-- Asks the active controller for the cluster. -/
def contact (r : Remote) (cluster : String) : Contact × Remote :=
  match r.controller.name with
  | none => (.noController, r)
  | some active =>
    let r := { r with calls := { r.calls with contacts := r.calls.contacts + 1 } }
    match r.clusters cluster with
    | some c => if c.controller.all (· == active) then (.reached c, r) else (.noCluster, r)
    | none => (.noCluster, r)

def askedFor (r : Remote) (cluster host : String) : Nat :=
  (r.asked[cluster]?.bind fun hosts => hosts[host]?).getD 0

/-- Asks a cluster that was reached for the listing of the host. -/
def askListing (r : Remote) (cluster : String) (c : Cluster) (host : String) : Plan × Remote :=
  let n := r.askedFor cluster host
  (c.plan host n,
    { r with
      asked := r.asked.insert cluster ((r.asked[cluster]?.getD ∅).insert host (n + 1))
      calls := { r.calls with listings := r.calls.listings + 1 } })

/-- Asks a cluster that was reached for the address of a log. -/
def askTail (r : Remote) (c : Cluster) (base component host : String) : Option String × Remote :=
  (c.tailAddress base component host, { r with calls := { r.calls with tails := r.calls.tails + 1 } })

def isOpen (r : Remote) (gate : String) : Bool := r.opened.contains gate

def openGate (r : Remote) (gate : String) : Remote :=
  if r.isOpen gate then r else { r with opened := r.opened ++ [gate] }

def install (r : Remote) (name : String) : Bool × Remote :=
  let (installed, controller) := r.controller.install name
  (installed, { r with controller })

end Remote
end LogCatalog
