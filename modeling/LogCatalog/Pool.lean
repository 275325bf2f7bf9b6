import LogCatalog.Workspace

/-!
# The pool

A queue of fetches and a number of permits. A loop takes the fetches from the queue in order, holds
one while it waits for a permit, and hands it over to run on its own; a fetch gives its permit back
when it ends. `unfinished` counts the fetches that were accepted and have not ended.
-/
namespace LogCatalog

inductive Stage where
  /-- Has a permit and has not begun. -/
  | granted
  | calling (c : Call)

structure Task where
  fetch : Fetch
  stage : Stage

structure Pool where
  accepting : Bool
  /-- Whether the loop that serves the queue is there. -/
  looping : Bool
  queue : List Fetch := []
  held : Option Fetch := none
  /-- Fetches that have a permit, in the order in which they were given one. -/
  active : List Task := []
  free : Nat
  unfinished : Nat := 0

/-- One step of the background. -/
inductive Move where
  /-- The loop takes a fetch from the queue. -/
  | receive
  /-- The fetch that the loop holds gets a permit. -/
  | grant
  /-- A fetch that has a permit goes on, as far as it can. -/
  | resume (ticket : Nat)
  /-- The loop ends, since no fetch is queued or can be. -/
  | leave
deriving DecidableEq

namespace Pool

/-- The largest number of permits. -/
def maxPermits : Nat := Nat.pow 2 61 - 1

/-- The number of fetches that may run at once for a requested number of workers. -/
def permits (workers : Nat) : Nat := max 1 (min workers maxPermits)

/-- A pool that was never opened. -/
def idle : Pool := { accepting := false, looping := false, free := 0 }

def start (workers : Nat) : Pool := { accepting := true, looping := true, free := permits workers }

def close (p : Pool) : Pool := { p with accepting := false }

/-- The accepted fetches that have not ended, in the order in which they were accepted. -/
def outstanding (p : Pool) : List Fetch :=
  p.active.map Task.fetch ++ p.held.toList ++ p.queue

/-- Queues a fetch. A fetch that is not accepted is dropped with its marker. -/
def enqueue (w : Workspace) (p : Pool) (f : Fetch) : Bool × Workspace × Pool :=
  if ¬p.accepting then (false, w.release f.key, p)
  else if ¬p.looping then (false, (w.release f.key).emit [.queueClosed], p)
  else (true, w, { p with queue := p.queue ++ [f], unfinished := p.unfinished + 1 })

def receive? (p : Pool) : Option Pool :=
  match p.looping, p.held, p.queue with
  | true, none, f :: rest => some { p with queue := rest, held := some f }
  | _, _, _ => none

def grant? (p : Pool) : Option Pool :=
  match p.looping, p.held, p.free with
  | true, some f, free + 1 => some { p with held := none, active := p.active ++ [⟨f, .granted⟩], free }
  | _, _, _ => none

def leave? (p : Pool) : Option Pool :=
  if p.looping ∧ ¬p.accepting ∧ p.held.isNone ∧ p.queue.isEmpty then some { p with looping := false }
  else none

def find? (p : Pool) (ticket : Nat) : Option Task :=
  p.active.find? fun t => t.fetch.ticket == ticket

/-- A fetch has ended: its permit is free again. -/
def retire (p : Pool) (ticket : Nat) : Pool :=
  { p with
    active := p.active.filter fun t => t.fetch.ticket != ticket
    free := p.free + 1
    unfinished := p.unfinished - 1 }

def restage (p : Pool) (ticket : Nat) (stage : Stage) : Pool :=
  { p with active := p.active.map fun t => if t.fetch.ticket = ticket then ⟨t.fetch, stage⟩ else t }

def resume? (w : Workspace) (p : Pool) (ticket : Nat) : Option (Workspace × Pool) :=
  match p.find? ticket with
  | none => none
  | some ⟨f, .granted⟩ =>
    match w.begin f with
    | (.inl _, w) => some (w, p.retire ticket)
    | (.inr c, w) => some (w, p.restage ticket (.calling c))
  | some ⟨f, .calling c⟩ =>
    if c.isDue w.remote w.now then
      match w.look f c with
      | (.inl _, w) => some (w, p.retire ticket)
      | (.inr c, w) => some (w, p.restage ticket (.calling c))
    else none

/-- The effect of a step, if it can be taken. -/
def move? (w : Workspace) (p : Pool) : Move → Option (Workspace × Pool)
  | .receive => p.receive?.map (w, ·)
  | .grant => p.grant?.map (w, ·)
  | .leave => p.leave?.map (w, ·)
  | .resume ticket => resume? w p ticket

/-- The loop and everything that runs are gone. The fetches drop their markers. What is still in the
queue stays counted as unfinished, since only the loop takes it off the count. -/
def collapse (w : Workspace) (p : Pool) : Workspace × Pool :=
  (p.outstanding.foldl (fun w f => w.release f.key) w,
    { p with
      looping := false
      queue := []
      held := none
      active := []
      unfinished := p.unfinished - (p.active.length + p.held.toList.length) })

end Pool
end LogCatalog
