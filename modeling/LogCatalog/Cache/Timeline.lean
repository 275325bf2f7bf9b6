import LogCatalog.Cache

/-!
# A cache on a clock

Commands to one cache, on a clock that only they move. Where nothing else is said it is a cache of texts.
-/
namespace LogCatalog

structure Timeline (α : Type := String) where
  now : Nat := 0
  cache : Cache α

namespace Timeline

inductive Command (α : Type := String) where
  | insert (key : Key) (value : α)
  | insertAt (epoch : UInt64) (key : Key) (value : α)
  | get (key : Key)
  | contains (key : Key)
  | clear
  | dropStale
  | advance (time : Nat)
  | lifetime

inductive Reply (α : Type := String) where
  | nothing
  | flag (b : Bool)
  | number (n : Nat)
  | value (found : Option α)

variable {α : Type}

def perform (t : Timeline α) : Command α → Reply α × Timeline α
  | .insert key value => (.nothing, { t with cache := t.cache.insert t.now key value })
  | .insertAt epoch key value =>
    let (accepted, cache) := t.cache.insertAt epoch t.now key value
    (.flag accepted, { t with cache })
  | .get key =>
    let (found, cache) := t.cache.get t.now key
    (.value found, { t with cache })
  | .contains key =>
    let (found, cache) := t.cache.contains t.now key
    (.flag found, { t with cache })
  | .clear => (.nothing, { t with cache := t.cache.clear })
  | .dropStale =>
    let (count, cache) := t.cache.dropStale t.now
    (.number count, { t with cache })
  | .advance time => (.nothing, { t with now := t.now + time })
  | .lifetime => (.number t.cache.lifetime, t)

/-- The reply to each command and the state after it. -/
def performAll (t : Timeline α) : List (Command α) → List (Reply α × Timeline α)
  | [] => []
  | c :: cs =>
    let (reply, next) := t.perform c
    (reply, next) :: next.performAll cs

end Timeline
end LogCatalog
