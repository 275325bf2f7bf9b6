import Mathlib.Algebra.BigOperators.Finprod
import LogCatalog.Proofs.Catalog.InFlight
import LogCatalog.Proofs.Catalog.Stopped

/-!
# What the counters count

Every action makes its recordings, and each recording stands for something that happened: a lookup, a
fetch that was queued, a fetch that left. Over a run the counters are the numbers of recordings, so they
account for every lookup and every fetch.
-/
namespace LogCatalog

/-- A counter grows by the number of recordings of its kind. -/
theorem Counters.get_foldl_record (c : Counters) (ts : List Tally) (t : Tally) :
    (ts.foldl Counters.record c).get t = c.get t + UInt64.ofNat (ts.count t) := by
  induction ts generalizing c with
  | nil => simp
  | cons u ts ih =>
    rw [List.foldl_cons, ih, Counters.get_record, List.count_cons, UInt64.ofNat_add]
    by_cases h : u = t
    · subst h
      rw [if_pos rfl, if_pos (beq_self_eq_true u), UInt64.add_comm (UInt64.ofNat _), ← UInt64.add_assoc]
      rfl
    · rw [if_neg (Ne.symm h), if_neg (by simpa using h)]
      simp

/-- What an exit has recorded. -/
def Exit.tallies (x : Exit) : List Tally :=
  (if x.isFailure then [.failed] else []) ++ if x.outcome.isSome then [.completed] else []

theorem Exit.tally_eq (x : Exit) (c : Counters) : x.tally c = x.tallies.foldl Counters.record c := by
  unfold tally tallies
  cases x.isFailure <;> cases x.outcome.isSome <;> rfl

theorem Exit.isSome_outcome_of_isFailure {x : Exit} (h : x.isFailure) : x.outcome.isSome := by
  rcases isFailure_iff.1 h with e | e | e <;> rw [e] <;> rfl

namespace Catalog

def Action.isNames : Action → Bool
  | .names _ _ _ => true
  | _ => false

def Action.isTail : Action → Bool
  | .tail _ _ _ _ => true
  | _ => false

/-- How many actions of a kind a run makes while the catalog runs. -/
def served (kind : Action → Bool) (s : Catalog) : List Action → Nat
  | [] => 0
  | a :: actions => (if s.phase = .running ∧ kind a then 1 else 0) + (s.act a).served kind actions

/-- The recordings account for so many lookups of either kind, for the fetches that were queued and for
those that left. -/
structure Accounts (ts : List Tally) (names tails : Nat) (queued : List Fetch) (exits : List Exit) :
    Prop where
  names : ts.count .hit + ts.count .miss = names
  misses : ts.count .miss = ts.count .queued + ts.count .joined + ts.count .turnedAway
  tails : ts.count .tailHit + ts.count .tailMiss = tails
  queued : ts.count .queued = queued.length
  completed : ts.count .completed = exits.countP (·.outcome.isSome)
  failed : ts.count .failed = exits.countP Exit.isFailure

theorem Accounts.append {ts ts' : List Tally} {names names' tails tails' : Nat}
    {queued queued' : List Fetch} {exits exits' : List Exit} (h : Accounts ts names tails queued exits)
    (h' : Accounts ts' names' tails' queued' exits') :
    Accounts (ts ++ ts') (names + names') (tails + tails') (queued ++ queued') (exits ++ exits') := by
  obtain ⟨h₁, h₂, h₃, h₄, h₅, h₆⟩ := h
  obtain ⟨h₁', h₂', h₃', h₄', h₅', h₆'⟩ := h'
  constructor <;> simp only [List.count_append, List.countP_append, List.length_append] <;> omega

theorem accounts_nil : Accounts [] 0 0 [] [] := ⟨rfl, rfl, rfl, rfl, rfl, rfl⟩

theorem accounts_exit (x : Exit) : Accounts x.tallies 0 0 [] [x] := by
  have hs := @Exit.isSome_outcome_of_isFailure x
  constructor <;> unfold Exit.tallies <;>
    cases hf : x.isFailure <;> cases ho : x.outcome.isSome <;> simp [hf, ho]

variable {s : Catalog} {a : Action}

/-- What one action records: each tally at most once, and all of it is accounted for. -/
structure Recorded (s : Catalog) (a : Action) (ts : List Tally) : Prop where
  counters : (s.act a).work.counters = ts.foldl Counters.record s.work.counters
  once : ts.Nodup
  accounts : Accounts ts (s.served Action.isNames [a]) (s.served Action.isTail [a])
    (s.queued? a).toList (s.exit? a).toList

theorem served_of_other {kind : Action → Bool} (h : s.phase = .running → kind a = false) :
    s.served kind [a] = 0 := by
  by_cases hp : s.phase = .running <;> simp [served, hp, h]

theorem served_of_running {kind : Action → Bool} (hp : s.phase = .running) (h : kind a) :
    s.served kind [a] = 1 := by
  simp [served, hp, h]

/-- An action that serves no lookup and ends no fetch records nothing. -/
theorem recorded_nil (exits : s.exit? a = none)
    (other : s.phase = .running → a.isNames = false ∧ a.isTail = false)
    (queue : (s.act a).pool.queue.length ≤ s.pool.queue.length)
    (counters : (s.act a).work.counters = s.work.counters) : s.Recorded a [] where
  counters := counters
  once := List.nodup_nil
  accounts := by
    rw [exits, queued?_eq_none queue, served_of_other fun hp => (other hp).1,
      served_of_other fun hp => (other hp).2]
    exact accounts_nil

theorem recorded_of_eq_self (exits : s.exit? a = none)
    (other : s.phase = .running → a.isNames = false ∧ a.isTail = false) (h : s.act a = s) :
    s.Recorded a [] :=
  recorded_nil exits other (by rw [h]) (by rw [h])

theorem exists_recorded_names (h : s.Sound) (component host cluster : String) :
    ∃ ts, s.Recorded (.names component host cluster) ts := by
  by_cases hp : s.phase = .running
  · have names : s.served Action.isNames [.names component host cluster] = 1 := served_of_running hp rfl
    have tails : s.served Action.isTail [.names component host cluster] = 0 :=
      served_of_other fun _ => rfl
    obtain ⟨answer, -, hserved⟩ := act_names_of_running hp component host cluster
    generalize hs' : s.act (.names component host cluster) = s' at hserved
    have hquiet (ts : List Tally) (pool : s'.pool = s.pool)
        (counters : s'.work.counters = ts.foldl Counters.record s.work.counters) (once : ts.Nodup)
        (accounts : Accounts ts 1 0 [] []) : ∃ ts, s.Recorded (.names component host cluster) ts := by
      refine ⟨ts, by rw [hs']; exact counters, once, ?_⟩
      rw [names, tails, queued?_eq_none (Nat.le_of_eq (by rw [hs', pool]))]
      exact accounts
    cases hserved with
    | hit => exact hquiet [.hit] rfl rfl (by decide) (by constructor <;> rfl)
    | turnedAway => exact hquiet [.miss, .turnedAway] rfl rfl (by decide) (by constructor <;> rfl)
    | joined => exact hquiet [.miss, .joined] rfl rfl (by decide) (by constructor <;> rfl)
    | queued admits =>
      refine ⟨[.miss, .queued], by rw [hs']; rfl, by decide, ?_⟩
      rw [names, tails, queued?_of_admits h hp admits]
      constructor <;> rfl
    | refused admits shut => exact absurd (h.serving hp) shut
  · exact ⟨[], recorded_of_eq_self rfl (fun e => absurd e hp) (act_names_of_not_running hp _ _ _)⟩

theorem exists_recorded_tail (s : Catalog) (base component host cluster : String) :
    ∃ ts, s.Recorded (.tail base component host cluster) ts := by
  by_cases hp : s.phase = .running
  · have names : s.served Action.isNames [.tail base component host cluster] = 0 :=
      served_of_other fun _ => rfl
    have tails : s.served Action.isTail [.tail base component host cluster] = 1 :=
      served_of_running hp rfl
    obtain ⟨addresses, remote, t, ht, e⟩ := act_tail_of_running hp base component host cluster
    have hq : s.queued? (.tail base component host cluster) = none := queued?_eq_none (by rw [e])
    refine ⟨[t], by rw [e]; rfl, List.nodup_singleton t, ?_⟩
    rw [names, tails, hq]
    rcases ht with rfl | rfl <;> constructor <;> rfl
  · exact ⟨[], recorded_of_eq_self rfl (fun e => absurd e hp) (act_tail_of_not_running hp _ _ _ _)⟩

/-- In the background nothing but the end of a fetch is recorded. -/
theorem exists_recorded_move (s : Catalog) (m : Move) : ∃ ts, s.Recorded (.background (.move m)) ts := by
  rcases act_move s m with ⟨e, hx⟩ | ⟨work, pool, e, hs⟩
  · exact ⟨[], recorded_of_eq_self hx (fun _ => ⟨rfl, rfl⟩) e⟩
  · have hqueue : (s.act (.background (.move m))).pool.queue.length ≤ s.pool.queue.length := by
      rw [e]
      exact hs.queue_length_le
    cases hx : s.exit? (.background (.move m)) with
    | none =>
      rw [hx] at hs
      refine ⟨[], recorded_nil hx (fun _ => ⟨rfl, rfl⟩) hqueue ?_⟩
      rw [e]
      exact hs.quiet.2.2.2.1
    | some x =>
      rw [hx] at hs
      refine ⟨x.tallies, ?_, ?_, ?_⟩
      · rw [e, ← Exit.tally_eq]
        exact hs.closed.counters
      · unfold Exit.tallies
        cases x.isFailure <;> cases x.outcome.isSome <;> decide
      · rw [hx, queued?_eq_none hqueue, served_of_other fun _ => rfl, served_of_other fun _ => rfl]
        exact accounts_exit x

theorem exists_recorded (h : s.Sound) (a : Action) : ∃ ts, s.Recorded a ts := by
  cases a with
  | names component host cluster => exact exists_recorded_names h component host cluster
  | tail base component host cluster => exact exists_recorded_tail s base component host cluster
  | start runtime =>
    refine ⟨[], ?_⟩
    rcases act_start s runtime with e | ⟨idle, sweepAt, log, e⟩
    · exact recorded_of_eq_self rfl (fun _ => ⟨rfl, rfl⟩) e
    · exact recorded_nil rfl (fun _ => ⟨rfl, rfl⟩) (by rw [e]; exact Nat.zero_le _) (by rw [e])
  | stop =>
    refine ⟨[], ?_⟩
    by_cases hp : s.phase = .running
    · have e := act_stop_of_running hp
      exact recorded_nil rfl (fun _ => ⟨rfl, rfl⟩) (by rw [e]; exact Nat.le_refl _) (by rw [e])
    · exact recorded_of_eq_self rfl (fun _ => ⟨rfl, rfl⟩) (act_stop_of_not_running hp)
  | openGate | install | regroup | elapse =>
    exact ⟨[], recorded_nil rfl (fun _ => ⟨rfl, rfl⟩) (Nat.le_refl _) rfl⟩
  | background b =>
    cases b with
    | move m => exact exists_recorded_move s m
    | sweep =>
      refine ⟨[], ?_⟩
      rcases act_sweep s with e | ⟨sweepAt, log, e⟩
      · exact recorded_of_eq_self rfl (fun _ => ⟨rfl, rfl⟩) e
      · exact recorded_nil rfl (fun _ => ⟨rfl, rfl⟩) (by rw [e]) (by rw [e])

theorem served_cons (kind : Action → Bool) (s : Catalog) (a : Action) (actions : List Action) :
    s.served kind (a :: actions) = s.served kind [a] + (s.act a).served kind actions := rfl

/-- What a run records is accounted for, and there is at most one recording of a kind for each action. -/
theorem exists_recorded_run (h : s.Sound) (actions : List Action) :
    ∃ ts : List Tally, (s.run actions).work.counters = ts.foldl Counters.record s.work.counters ∧
      (∀ t, ts.count t ≤ actions.length) ∧
      Accounts ts (s.served Action.isNames actions) (s.served Action.isTail actions)
        (s.arrivals actions) (s.exits actions) := by
  induction actions generalizing s with
  | nil => exact ⟨[], rfl, fun _ => Nat.le_refl _, accounts_nil⟩
  | cons a actions ih =>
    obtain ⟨ts, hts⟩ := exists_recorded h a
    obtain ⟨rest, hcounters, hcount, haccounts⟩ := ih (h.act a)
    refine ⟨ts ++ rest, ?_, ?_, ?_⟩
    · rw [run_cons, hcounters, hts.counters, List.foldl_append]
    · intro t
      have hone := List.nodup_iff_count_le_one.1 hts.once t
      have hrest := hcount t
      rw [List.count_append, List.length_cons]
      omega
    · rw [served_cons, served_cons _ _ _ actions, arrivals, exits]
      exact hts.accounts.append haccounts

/-- The components that exits counted a failure against, each as often as it did. -/
def failedComponents (xs : List Exit) : List String :=
  (xs.filter Exit.isFailure).map fun x => x.fetch.request.component

theorem failedComponents_append (xs ys : List Exit) :
    failedComponents (xs ++ ys) = failedComponents xs ++ failedComponents ys := by
  simp [failedComponents]

theorem length_failedComponents (xs : List Exit) :
    (failedComponents xs).length = xs.countP Exit.isFailure := by
  rw [failedComponents, List.length_map, List.countP_eq_length_filter]

theorem failuresOf_act (h : s.Tidy) (a : Action) (component : String) :
    (s.act a).failuresOf component =
      min (s.failuresOf component + (failedComponents (s.exit? a).toList).count component)
        Registry.maxFailures := by
  have hle := h.failures component
  rw [(traffic h a).failuresOf_act]
  cases hx : s.exit? a with
  | none => simpa [failedComponents] using hle
  | some x =>
    by_cases hf : x.isFailure ∧ x.fetch.request.component = component
    · simp [failedComponents, hf.1, hf.2]
    · rw [if_neg (by rintro ⟨y, ⟨⟩, hy⟩; exact hf hy)]
      have hcount : (failedComponents (some x).toList).count component = 0 := by
        rw [List.count_eq_zero]
        intro hmem
        obtain ⟨y, hy, rfl⟩ := List.mem_map.1 hmem
        obtain ⟨hy, hfailure⟩ := List.mem_filter.1 hy
        obtain rfl := List.mem_singleton.1 hy
        exact hf ⟨hfailure, rfl⟩
      omega

/-- A failure count is the number of exits that counted a failure, as far as counts go. -/
theorem failuresOf_run (h : s.Tidy) (actions : List Action) (component : String) :
    (s.run actions).failuresOf component =
      min (s.failuresOf component + (failedComponents (s.exits actions)).count component)
        Registry.maxFailures := by
  induction actions generalizing s with
  | nil =>
    have hle := h.failures component
    simpa [exits, failedComponents] using hle
  | cons a actions ih =>
    rw [run_cons, ih (h.act a), failuresOf_act h, exits, failedComponents_append, List.count_append]
    omega

theorem failuresOf_new (policy : Policy) (remote : Remote) (component : String) :
    (new policy remote).failuresOf component = 0 := by
  simp [failuresOf, Registry.failuresOf, new]

theorem finsum_count (components : List String) :
    (Function.support fun c => components.count c).Finite ∧
      ∑ᶠ c, components.count c = components.length := by
  have hsub : (Function.support fun c => components.count c) ⊆ components.toFinset := by
    intro c hc
    rw [Finset.mem_coe, List.mem_toFinset]
    exact List.count_pos_iff.1 (Nat.pos_of_ne_zero hc)
  refine ⟨(Finset.finite_toSet _).subset hsub, ?_⟩
  rw [finsum_eq_sum_of_support_subset _ hsub, List.sum_toFinset_count_eq_length]

/-- As long as no failure count is at its limit, all of them together are the number of failures. -/
theorem finsum_failuresOf {policy : Policy} {remote : Remote} {actions : List Action}
    (h : ∀ component, ((new policy remote).run actions).failuresOf component < Registry.maxFailures) :
    (Function.support ((new policy remote).run actions).failuresOf).Finite ∧
      ∑ᶠ component, ((new policy remote).run actions).failuresOf component =
        ((new policy remote).exits actions).countP Exit.isFailure := by
  have hcount : ((new policy remote).run actions).failuresOf =
      fun c => (failedComponents ((new policy remote).exits actions)).count c := by
    funext component
    have hlt := h component
    have hrun := failuresOf_run (tidy_new policy remote) actions component
    rw [failuresOf_new] at hrun
    omega
  rw [hcount, ← length_failedComponents]
  exact finsum_count _

/-- As many fetches were queued as have left, with an outcome or without, or are outstanding. -/
theorem length_arrivals (policy : Policy) (remote : Remote) (actions : List Action) :
    ((new policy remote).arrivals actions).length =
      ((new policy remote).exits actions).countP (·.outcome.isSome) +
        ((new policy remote).exits actions).countP (·.outcome.isNone) +
        ((new policy remote).run actions).pool.outstanding.length := by
  have hperm := (outstanding_perm (tidy_new policy remote) actions).length_eq
  have hnone : (new policy remote).pool.outstanding = [] := rfl
  have hsplit := List.length_eq_countP_add_countP (fun x : Exit => x.outcome.isSome)
    (l := (new policy remote).exits actions)
  have hother : (fun x : Exit => decide ¬x.outcome.isSome = true) = fun x => x.outcome.isNone := by
    funext x
    cases x.outcome <;> rfl
  rw [hnone, List.nil_append, List.length_append, List.length_map] at hperm
  rw [hother] at hsplit
  omega

/-- Until two to the 64th events the counters are exact. Hits and misses are the lookups of file names made
while the catalog ran; a miss was queued, joined or turned away; a queued fetch has completed, or its call
broke off, or it is outstanding. No more fetches have failed than completed, and as long as no failure
count has reached its limit those that failed are all failure counts together. Tail hits and misses are
the lookups of addresses made while the catalog ran. A lookup at any other time counts nothing. -/
theorem counters_account (policy : Policy) (remote : Remote) (actions : List Action)
    (h : actions.length < UInt64.size) :
    let s₀ := new policy remote
    let s := s₀.run actions
    let c := s.work.counters
    c.hits.toNat + c.misses.toNat = s₀.served Action.isNames actions ∧
    c.misses.toNat = c.queued.toNat + c.joined.toNat + c.turnedAway.toNat ∧
    c.queued.toNat = c.completed.toNat + (s₀.exits actions).countP (·.outcome.isNone) +
      s.pool.outstanding.length ∧
    (∀ before a after x, actions = before ++ a :: after → (s₀.run before).exit? a = some x →
      (x.outcome = none ↔ (s₀.run before).BreaksOff a)) ∧
    c.failed.toNat ≤ c.completed.toNat ∧
    ((∀ component, s.failuresOf component < Registry.maxFailures) →
      (Function.support s.failuresOf).Finite ∧
        c.failed.toNat = ∑ᶠ component, s.failuresOf component) ∧
    c.tailHits.toNat + c.tailMisses.toNat = s₀.served Action.isTail actions ∧
    (s.phase ≠ .running → ∀ a, a.isNames ∨ a.isTail → (s.act a).work.counters = c) := by
  intro s₀ s c
  obtain ⟨ts, hcounters, hcount, haccounts⟩ := exists_recorded_run (sound_new policy remote) actions
  have hget (t : Tally) : (c.get t).toNat = ts.count t := by
    have hzero : ({} : Counters).get t = 0 := by cases t <;> rfl
    have hc : c = ts.foldl Counters.record {} := hcounters
    rw [hc, Counters.get_foldl_record, hzero, UInt64.zero_add]
    exact UInt64.toNat_ofNat_of_lt' (Nat.lt_of_le_of_lt (hcount t) h)
  have hcompleted := (hget .completed).trans haccounts.completed
  have hfailed := (hget .failed).trans haccounts.failed
  have hqueued := (hget .queued).trans haccounts.queued
  have hnames := haccounts.names
  have hmisses := haccounts.misses
  have htails := haccounts.tails
  simp only [← hget] at hnames hmisses htails
  refine ⟨hnames, hmisses, ?_, ?_, ?_, ?_, htails, ?_⟩
  · rw [length_arrivals, ← hcompleted] at hqueued
    exact hqueued
  · intro before a after x _ hx
    exact outcome_eq_none_iff hx
  · have hle : (s₀.exits actions).countP Exit.isFailure ≤
        (s₀.exits actions).countP (·.outcome.isSome) :=
      List.countP_mono_left fun _ _ hx => Exit.isSome_outcome_of_isFailure hx
    rw [← hcompleted, ← hfailed] at hle
    exact hle
  · intro hlimit
    obtain ⟨hfinite, hsum⟩ := finsum_failuresOf hlimit
    exact ⟨hfinite, hfailed.trans hsum.symm⟩
  · intro hp a ha
    cases a with
    | names component host cluster => rw [act_names_of_not_running hp]
    | tail base component host cluster => rw [act_tail_of_not_running hp]
    | _ => simp [Action.isNames, Action.isTail] at ha

/-- A remote side that lists nothing, and that breaks off when it is asked for one host. -/
def breaking (broken : String) : Remote where
  controller := ⟨some "controller"⟩
  clusters _ := some
    { plan := fun host _ => { reply := if host = broken then .panic else .answer .nothing }
      tailAddress := fun _ _ _ => none }

/-- Three lookups queue two fetches, of which one fails and one breaks off. -/
theorem counters_account_of_break :
    let s₀ := new (.ofHours 1) (breaking "lost")
    let actions : List Action := [.start true, .names "server" "dry" "east", .names "agent" "lost" "east",
      .names "agent" "lost" "west", .tail "base" "agent" "lost" "east"] ++
      ([.receive, .grant, .resume 0, .resume 0, .receive, .grant, .resume 1, .resume 1].map
        fun m => .background (.move m)) ++ [.stop, .names "server" "dry" "east"]
    let s := s₀.run actions
    actions.length < UInt64.size ∧
      s.work.counters =
        { misses := 3, queued := 2, joined := 1, completed := 1, failed := 1, tailMisses := 1 } ∧
      s.failuresOf "server" = 1 ∧
      s.work.counters.queued.toNat = s.work.counters.completed.toNat +
        (s₀.exits actions).countP (·.outcome.isNone) + s.pool.outstanding.length ∧
      (s₀.exits actions).countP (·.outcome.isNone) = 1 :=
  ⟨by decide, by decide, by decide,
    (counters_account (.ofHours 1) (breaking "lost") _ (by decide)).2.2.1, by decide⟩

end Catalog
end LogCatalog
