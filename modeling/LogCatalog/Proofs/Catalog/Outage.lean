import LogCatalog.Catalog.Session
import LogCatalog.Proofs.Catalog.Traffic

/-!
# Losing the runtime

The background needs a runtime, which can go away at any moment. Its loss drops all outstanding fetches
with their markers, while the caches, the failure counts and the phase stay as they are. A life of a
catalog is a run in which the runtime may be lost.
-/
namespace LogCatalog.Catalog

/-- The loss takes the loop of the pool, the sweeps and everything that runs. -/
def loseRuntime (s : Catalog) : Catalog :=
  let (work, pool) := s.pool.collapse s.work
  { s with work, pool, sweepAt := none }

inductive Event where
  | action (a : Action)
  | runtimeLost

def meet (s : Catalog) : Event → Catalog
  | .action a => s.act a
  | .runtimeLost => s.loseRuntime

/-- The state after the events, one after the other. -/
def live (s : Catalog) (events : List Event) : Catalog := events.foldl meet s

/-- A session that loses its runtime loses that of its catalog. -/
theorem dropRuntime_catalog (session : Session) :
    session.dropRuntime.catalog = session.catalog.loseRuntime := rfl

variable (s : Catalog)

@[simp] theorem live_nil : s.live [] = s := rfl

@[simp] theorem live_cons (e : Event) (events : List Event) :
    s.live (e :: events) = (s.meet e).live events := rfl

theorem live_append (before after : List Event) :
    s.live (before ++ after) = (s.live before).live after :=
  List.foldl_append

theorem work_loseRuntime :
    s.loseRuntime.work =
      { s.work with
        registry := (s.pool.outstanding.map Fetch.key).foldl Registry.release s.work.registry } :=
  Pool.collapse_fst s.work s.pool

theorem outstanding_loseRuntime : s.loseRuntime.pool.outstanding = [] := rfl

theorem failuresOf_loseRuntime (component : String) :
    s.loseRuntime.failuresOf component = s.failuresOf component := by
  rw [failuresOf, work_loseRuntime]
  exact Registry.failuresOf_foldl_release _ _ _

variable {s : Catalog}

theorem Tidy.loseRuntime (h : s.Tidy) : s.loseRuntime.Tidy where
  tickets := List.nodup_nil
  issued _ hf := nomatch hf
  idle _ := rfl
  failures component := by
    rw [failuresOf_loseRuntime]
    exact h.failures component

theorem Tidy.meet (h : s.Tidy) (e : Event) : (s.meet e).Tidy := by
  cases e with
  | action a => exact h.act a
  | runtimeLost => exact h.loseRuntime

theorem Tidy.live (h : s.Tidy) (events : List Event) : (s.live events).Tidy := by
  induction events generalizing s with
  | nil => exact h
  | cons e events ih => exact ih (h.meet e)

end LogCatalog.Catalog
