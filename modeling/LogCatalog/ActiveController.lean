/-!
# The active controller

The controller that owns the cluster state. There is none at first, and the first one stays.
-/
namespace LogCatalog

structure ActiveController where
  name : Option String := none
deriving DecidableEq, Inhabited

namespace ActiveController

/-- The answer says whether `name` was installed. -/
def install (c : ActiveController) (name : String) : Bool × ActiveController :=
  match c.name with
  | none => (true, ⟨some name⟩)
  | some _ => (false, c)

/-- What one attempt to install shows: the controller before, the answer, the controller after. -/
structure Attempt where
  before : Option String
  installed : Bool
  after : Option String

/-- Installs the names in turn. -/
def installAll (c : ActiveController) : List String → List Attempt × ActiveController
  | [] => ([], c)
  | name :: names =>
    let (installed, next) := c.install name
    let (attempts, last) := next.installAll names
    (⟨c.name, installed, next.name⟩ :: attempts, last)

end ActiveController
end LogCatalog
