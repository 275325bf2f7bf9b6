import Mathlib.Data.List.Induction
import LogCatalog.Proofs.Catalog.Sound

/-!
# What lookups recall

A lookup finds what the last exit with names for its component on its host brought, as long as that is
fresh, and nothing else: neither lookups and sweeps in between nor failures, markers and other hosts make
a difference.
-/
namespace LogCatalog

/-- The names that an exit brought for a component on a host. -/
def Exit.names? (x : Exit) (component host : String) : Option (List String) :=
  if x.fetch.request.host = host then x.rows.lookup component else none

namespace Catalog

/-- What the exits brought for a component on a host, and when. -/
def brought (component host : String) (xs : List Exit) : List (Nat × List String) :=
  xs.filterMap fun x => (x.names? component host).map (x.time, ·)

/-- The record of everything that the exits brought. -/
def recordOf (xs : List Exit) : Record NameSet :=
  xs.foldl (fun r x k => (Cache.listedEntry x.time x.fetch.request.host x.rows k).or (r k)) fun _ => none

theorem recordOf_concat (xs : List Exit) (x : Exit) (k : Key) :
    recordOf (xs ++ [x]) k =
      (Cache.listedEntry x.time x.fetch.request.host x.rows k).or (recordOf xs k) := by
  rw [recordOf, List.foldl_concat]
  rfl

theorem brought_concat (component host : String) (xs : List Exit) (x : Exit) :
    brought component host (xs ++ [x]) =
      brought component host xs ++ ((x.names? component host).map (x.time, ·)).toList := by
  rw [brought, List.filterMap_append, brought, List.filterMap_cons, List.filterMap_nil]
  cases x.names? component host <;> rfl

/-- Exits that brought nothing for the component on the host do not show in the record. -/
theorem recordOf_ofPair (xs : List Exit) (component host : String) :
    recordOf xs (.ofPair component host) =
      (brought component host xs).getLast?.map fun (time, names) =>
        ⟨Std.ExtTreeSet.ofList names, time⟩ := by
  induction xs using List.reverseRec with
  | nil => rfl
  | append_singleton xs x ih =>
    rw [recordOf_concat, ih, brought_concat, List.getLast?_append, Option.map_or]
    congr 1
    by_cases h : x.fetch.request.host = host
    · rw [h, Cache.listedEntry_ofPair, Exit.names?, if_pos h]
      cases x.rows.lookup component <;> rfl
    · rw [Cache.listedEntry_other_host h, Exit.names?, if_neg h]
      rfl

/-- The cache shows what the exits brought, until the stop. -/
structure Recalls (lifetime : Nat) (s : Catalog) (xs : List Exit) : Prop where
  lifetime : s.work.names.lifetime = lifetime
  past : ∀ x ∈ xs, x.time ≤ s.now
  shows : s.phase ≠ .stopped → s.work.names.Shows s.now (recordOf xs)

variable {lifetime : Nat} {s s' : Catalog} {xs : List Exit}

theorem recalls_new (policy : Policy) (remote : Remote) :
    Recalls policy.lifetime (new policy remote) [] where
  lifetime := rfl
  past _ hx := nomatch hx
  shows _ := Cache.shows_nothing

theorem Recalls.congr (h : Recalls lifetime s xs)
    (hl : s'.work.names.lifetime = s.work.names.lifetime) (hn : s.now ≤ s'.now)
    (hs : s'.phase ≠ .stopped → s.phase ≠ .stopped ∧
      ∀ r, s.work.names.Shows s.now r → s'.work.names.Shows s'.now r) :
    Recalls lifetime s' xs where
  lifetime := hl.trans h.lifetime
  past x hx := Nat.le_trans (h.past x hx) hn
  shows e := (hs e).2 _ (h.shows (hs e).1)

/-- An action that keeps phase, time and cache keeps what is recalled. -/
theorem Recalls.of_same (h : Recalls lifetime s xs) (hp : s'.phase = s.phase) (hn : s'.now = s.now)
    (hc : s'.work.names = s.work.names) : Recalls lifetime s' xs := by
  apply h.congr
  · rw [hc]
  · exact Nat.le_of_eq hn.symm
  · rw [hp, hn, hc]
    exact fun e => ⟨e, fun _ hr => hr⟩

theorem Recalls.start (h : Recalls lifetime s xs) (runtime : Bool) :
    Recalls lifetime (s.act (.start runtime)) xs := by
  rcases act_start s runtime with e | ⟨idle, sweepAt, log, e⟩
  · rwa [e]
  · rw [e]
    have hphase : s.phase ≠ .stopped := by
      rw [idle]
      exact nofun
    exact h.congr rfl (Nat.le_refl _) fun _ => ⟨hphase, fun _ hr => hr⟩

theorem Recalls.stop (h : Recalls lifetime s xs) : Recalls lifetime (s.act .stop) xs := by
  by_cases hp : s.phase = .running
  · rw [act_stop_of_running hp]
    exact h.congr rfl (Nat.le_refl _) fun e => absurd rfl e
  · rwa [act_stop_of_not_running hp]

/-- A lookup drops at most what is stale. -/
theorem Recalls.names (h : Recalls lifetime s xs) (component host cluster : String) :
    Recalls lifetime (s.act (.names component host cluster)) xs := by
  by_cases hp : s.phase = .running
  · obtain ⟨answer, -, hserved⟩ := act_names_of_running hp component host cluster
    generalize s.act (.names component host cluster) = s' at hserved
    cases hserved with
    | _ =>
      exact h.congr (Cache.get_lifetime _ _ _) (Nat.le_refl _) fun e => ⟨e, fun _ hr => hr.get _⟩
  · rwa [act_names_of_not_running hp]

theorem Recalls.tail (h : Recalls lifetime s xs) (base component host cluster : String) :
    Recalls lifetime (s.act (.tail base component host cluster)) xs := by
  by_cases hp : s.phase = .running
  · obtain ⟨tails, remote, t, -, e⟩ := act_tail_of_running hp base component host cluster
    rw [e]
    exact h.of_same rfl rfl rfl
  · rwa [act_tail_of_not_running hp]

theorem Recalls.sweep (h : Recalls lifetime s xs) : Recalls lifetime (s.act (.background .sweep)) xs := by
  rcases act_sweep s with e | ⟨sweepAt, log, e⟩
  · rwa [e]
  · rw [e]
    exact h.congr rfl (Nat.le_refl _) fun e => ⟨e, fun _ hr => hr.dropStale⟩

/-- Before the stop an exit writes all its rows, since its epoch is the present one. -/
theorem Recalls.exit (h : Recalls lifetime s xs) (hs : s.Sound) {m : Move} {x : Exit} {work : Workspace}
    {pool : Pool} (hx : Pool.Step s.work s.pool m (some x) work pool) :
    Recalls lifetime { s with work, pool } (xs ++ [x]) := by
  have hc := hx.closed
  have hmem := (hx.outstanding_eq hs.tidy.tickets).1
  obtain ⟨hl, -⟩ := Cache.fill_frame s.work.names x.fetch.epoch x.time x.fetch.request.host x.rows 0
  have hnames : work.names.lifetime = s.work.names.lifetime := by
    rw [hc.names]
    exact hl
  refine ⟨hnames.trans h.lifetime, ?_, ?_⟩
  · intro y hy
    change y.time ≤ work.now
    rw [hc.now]
    rw [List.mem_append, List.mem_singleton] at hy
    rcases hy with hy | rfl
    · exact h.past y hy
    · exact Nat.le_of_eq hc.time
  · intro hp
    -- the cache is in the epoch of the fetch, so all rows are written
    have hepoch : s.work.names.epoch = x.fetch.epoch := (hs.current hp x.fetch hmem).symm
    have hentries (k : Key) : work.names.entries[k]? =
        (Cache.listedEntry x.time x.fetch.request.host x.rows k).or s.work.names.entries[k]? := by
      rw [hc.names]
      exact Cache.getElem?_fill hepoch x.nodup_rows k
    have hshows := (h.shows hp).written hnames hentries
    change work.names.Shows work.now _
    rw [hc.now]
    have hrecord : recordOf (xs ++ [x]) =
        fun k => (Cache.listedEntry x.time x.fetch.request.host x.rows k).or (recordOf xs k) := by
      funext k
      exact recordOf_concat xs x k
    rw [hrecord]
    exact hshows

theorem Recalls.move (h : Recalls lifetime s xs) (hs : s.Sound) (m : Move) :
    Recalls lifetime (s.act (.background (.move m)))
      (xs ++ (s.exit? (.background (.move m))).toList) := by
  rcases act_move s m with ⟨e, hx⟩ | ⟨work, pool, e, hstep⟩
  · rw [e, hx, Option.toList_none, List.append_nil]
    exact h
  · rw [e]
    cases hx : s.exit? (.background (.move m)) with
    | none =>
      rw [hx] at hstep
      obtain ⟨-, -, -, -, hn, ht, -⟩ := hstep.quiet
      rw [Option.toList_none, List.append_nil]
      exact h.of_same rfl ht hn
    | some x =>
      rw [hx] at hstep
      exact h.exit hs hstep

theorem Recalls.of_no_exit {a : Action} (h : Recalls lifetime (s.act a) xs) (hx : s.exit? a = none) :
    Recalls lifetime (s.act a) (xs ++ (s.exit? a).toList) := by
  rw [hx, Option.toList_none, List.append_nil]
  exact h

/-- Every action keeps what is recalled and adds what it brings. -/
theorem Recalls.act (h : Recalls lifetime s xs) (hs : s.Sound) (a : Action) :
    Recalls lifetime (s.act a) (xs ++ (s.exit? a).toList) := by
  cases a with
  | start runtime => exact (h.start runtime).of_no_exit rfl
  | stop => exact h.stop.of_no_exit rfl
  | names component host cluster => exact (h.names component host cluster).of_no_exit rfl
  | tail base component host cluster => exact (h.tail base component host cluster).of_no_exit rfl
  | openGate | install | regroup =>
    apply Recalls.of_no_exit _ rfl
    exact h.of_same rfl rfl rfl
  | elapse ms =>
    have hle : s.now ≤ (s.act (.elapse ms)).now := Nat.le_add_right _ _
    have hlater : Recalls lifetime (s.act (.elapse ms)) xs :=
      h.congr rfl hle fun e => ⟨e, fun _ hr => hr.later hle⟩
    exact hlater.of_no_exit rfl
  | background b =>
    cases b with
    | move m => exact h.move hs m
    | sweep => exact h.sweep.of_no_exit rfl

theorem Recalls.run (h : Recalls lifetime s xs) (hs : s.Sound) (actions : List Action) :
    Recalls lifetime (s.run actions) (xs ++ s.exits actions) := by
  induction actions generalizing s xs with
  | nil =>
    rw [exits, List.append_nil]
    exact h
  | cons a actions ih =>
    rw [exits, ← List.append_assoc]
    exact ih (h.act hs a) (hs.act a)

theorem lookUpNames_fst (h : s.phase = .running) (component host cluster : String) :
    (s.lookUpNames component host cluster).1 = s.work.names.find? s.now (.ofPair component host) := by
  rw [lookUpNames_of_running h ⟨component, host, cluster⟩]
  change _ = s.work.names.find? s.now (Request.mk component host cluster).key
  cases s.work.names.find? s.now (Request.mk component host cluster).key <;> rfl

/-- What a running catalog answers is decided by the last exit that brought names. -/
theorem Recalls.lookUpNames_fst (h : Recalls lifetime s xs) (hp : s.phase = .running)
    (component host cluster : String) :
    (s.lookUpNames component host cluster).1 =
      (brought component host xs).getLast?.bind fun (time, names) =>
        if s.now - time < lifetime then some (Std.ExtTreeSet.ofList names) else none := by
  have hshows := h.shows (by rw [hp]; exact nofun)
  rw [Catalog.lookUpNames_fst hp, hshows.find?_eq, Cache.freshValue, recordOf_ofPair, h.lifetime]
  cases (brought component host xs).getLast? with
  | none => rfl
  | some last => simp [Entry.isFreshAt]

theorem Recalls.time_le (h : Recalls lifetime s xs) {component host : String} {time : Nat}
    {names : List String} (hb : (brought component host xs).getLast? = some (time, names)) :
    time ≤ s.now := by
  obtain ⟨x, hx, e⟩ := List.mem_filterMap.1 (List.mem_of_getLast? hb)
  obtain ⟨_, -, e⟩ := Option.map_eq_some_iff.1 e
  cases e
  exact h.past x hx

theorem eq_ofList_iff {found : NameSet} {names : List String} :
    Std.ExtTreeSet.ofList names = found ↔ ∀ name, name ∈ found ↔ name ∈ names := by
  constructor
  · rintro rfl name
    rw [Std.ExtTreeSet.mem_ofList, List.contains_iff_mem]
  · intro h
    ext name
    rw [h, Std.ExtTreeSet.mem_ofList, List.contains_iff_mem]

/-- A lookup in a running catalog finds a set of names just when some exit brought names for the
component on the host, the last that did was less than the lifetime ago, and these are its names. So two
runs with the same lifetime and time in which the last of these exits agree give the same answer,
whatever else they did, and whatever cluster is named. -/
theorem lookUpNames_eq_some_iff (policy : Policy) (remote : Remote) (actions : List Action)
    (h : ((new policy remote).run actions).phase = .running) (component host cluster : String) :
    let s := (new policy remote).run actions
    let last := (brought component host ((new policy remote).exits actions)).getLast?
    (∀ found : NameSet, (s.lookUpNames component host cluster).1 = some found ↔
      ∃ time names, last = some (time, names) ∧ time ≤ s.now ∧ s.now - time < policy.lifetime ∧
        ∀ name, name ∈ found ↔ name ∈ names) ∧
    ∀ (policy' : Policy) (remote' : Remote) (actions' : List Action) (cluster' : String),
      let s' := (new policy' remote').run actions'
      s'.phase = .running → policy'.lifetime = policy.lifetime → s'.now = s.now →
      (brought component host ((new policy' remote').exits actions')).getLast? = last →
      (s'.lookUpNames component host cluster').1 = (s.lookUpNames component host cluster).1 := by
  intro s last
  have recalls (policy : Policy) (remote : Remote) (actions : List Action) :
      Recalls policy.lifetime ((new policy remote).run actions) ((new policy remote).exits actions) :=
    (recalls_new policy remote).run (sound_new policy remote) actions
  have hs := recalls policy remote actions
  constructor
  · intro found
    rw [hs.lookUpNames_fst h, Option.bind_eq_some_iff]
    constructor
    · rintro ⟨⟨time, names⟩, hlast, hfound⟩
      obtain ⟨hfresh, hfound⟩ := Option.ite_none_right_eq_some.1 hfound
      exact ⟨time, names, hlast, hs.time_le hlast, hfresh, eq_ofList_iff.1 (Option.some.inj hfound)⟩
    · rintro ⟨time, names, hlast, -, hfresh, hfound⟩
      refine ⟨(time, names), hlast, ?_⟩
      exact (if_pos hfresh).trans (congrArg some (eq_ofList_iff.2 hfound))
  · intro policy' remote' actions' cluster' s' hp hlifetime hnow hlast
    have hs' := recalls policy' remote' actions'
    rw [hs'.lookUpNames_fst hp, hs.lookUpNames_fst h, hlast, hlifetime, hnow]

/-- The listing that was fetched for one component answers for another one it lists, and names that it
lists twice are found once. -/
theorem lookUpNames_of_other_component :
    let s := (new (.ofHours 1) (answering [("server", ["a.log"]), ("agent", ["b.log", "b.log"])])).run
      ([.start true, .names "server" "host" "east"] ++ firstFetch ++ [.elapse 5])
    s.phase = .running ∧ (s.lookUpNames "agent" "host" "west").1 = some (.ofList ["b.log"]) := by
  refine ⟨by decide, ?_⟩
  have h := (lookUpNames_eq_some_iff (.ofHours 1)
    (answering [("server", ["a.log"]), ("agent", ["b.log", "b.log"])])
    ([.start true, .names "server" "host" "east"] ++ firstFetch ++ [.elapse 5]) (by decide)
    "agent" "host" "west").1
  refine (h _).2 ⟨0, ["b.log", "b.log"], by decide, by decide, by decide, ?_⟩
  intro name
  rw [Std.ExtTreeSet.mem_ofList, List.contains_iff_mem]
  simp

end Catalog
end LogCatalog
