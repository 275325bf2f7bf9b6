/-!
# Clockwork

What goes on by itself, step by step, and by the clock. While the clock stands, step after step is taken until
none can be taken. When the clock advances it stops at every instant at which something becomes due, and
everything settles there.
-/
namespace LogCatalog

structure Clockwork (α : Type) where
  now : α → Nat
  /-- What the next step leads to, unless no step can be taken before the clock moves. -/
  next? : α → Option α
  /-- A bound for the number of steps that can be taken before the clock moves. -/
  backlog : α → Nat
  elapse : α → Nat → α
  /-- The instants at which something becomes due. -/
  wakes : α → List Nat

namespace Clockwork

variable {α : Type} (c : Clockwork α)

def settleWithin : Nat → α → α
  | 0, s => s
  | n + 1, s =>
    match c.next? s with
    | some next => settleWithin n next
    | none => s

/-- Takes every step that can be taken while the clock stands. -/
def settle (s : α) : α := c.settleWithin (c.backlog s) s

/-- Lets time pass until `time`. -/
def moveClock (s : α) (time : Nat) : α := c.elapse s (time - c.now s)

/-- The next instant at which something becomes due. -/
def nextWake? (s : α) : Option Nat := (c.wakes s).min?

/-- Goes on from one instant to the next until `target`. Each is later than the one before. -/
def advanceWithin : Nat → Nat → α → α
  | 0, target, s => c.settle (c.moveClock s target)
  | n + 1, target, s =>
    match c.nextWake? s with
    | some time =>
      if time < target then advanceWithin n target (c.settle (c.moveClock s time))
      else c.settle (c.moveClock s target)
    | none => c.moveClock s target

def advance (s : α) (ms : Nat) : α := c.advanceWithin ms (c.now s + ms) (c.settle s)

end Clockwork
end LogCatalog
