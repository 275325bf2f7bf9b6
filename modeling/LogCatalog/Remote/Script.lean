import LogCatalog.Remote

/-!
# Scripted clusters

A script lists what a cluster replies, call by call. A host without a script of its own follows the
common one. The last plan of a script repeats, and an empty script lists nothing.
-/
namespace LogCatalog

inductive TailMode where
  | query
  | empty
  | none

def TailMode.uri (mode : TailMode) (base component host : String) : Option String :=
  match mode with
  | .query => some (base ++ "?component_name=" ++ component ++ "&host_name=" ++ host)
  | .empty => some ""
  | .none => Option.none

structure Script where
  hosts : List (String × List Plan) := []
  common : List Plan := []
  tail : TailMode := .query
  controller : Option String := Option.none

namespace Script

def planFor (s : Script) (host : String) (asked : Nat) : Plan :=
  let plans := (s.hosts.lookup host).getD s.common
  match plans[asked]?.or plans.getLast? with
  | some plan => plan
  | Option.none => ⟨Option.none, 0, .answer .nothing⟩

def cluster (s : Script) : Cluster :=
  { controller := s.controller, plan := s.planFor, tailAddress := s.tail.uri }

/-- A remote side of scripted clusters, of which the last one of each name counts. -/
def remote (controller : Option String) (scripts : List (String × Script)) : Remote :=
  { controller := ⟨controller⟩
    clusters := fun name => (scripts.reverse.lookup name).map cluster }

end Script
end LogCatalog
