import Mathlib.Data.List.Induction
import LogCatalog.Proofs.Catalog.Apart
import LogCatalog.Proofs.Catalog.Outage

/-!
# What lookups of addresses remember

A build is an address that the remote side gave to a lookup. A lookup finds what the last build for its
component on its host gave, as long as that is fresh, whatever base and cluster either of them names. Any
other lookup asks the remote side now. It builds what it is given, and if it is given nothing, it leaves
every entry that is still good as it was.
-/
namespace LogCatalog

/-- An address that the remote side gave, for which log and when. -/
structure Build where
  time : Nat
  component : String
  host : String
  uri : String

namespace Catalog

/-- The build of an action: a lookup that asked the remote side for an address and has one to answer. -/
def build? (s : Catalog) : Action → Option Build
  | .tail base component host cluster =>
    let (found, next) := s.lookUpTail base component host cluster
    if next.work.remote.calls.tails = s.work.remote.calls.tails then none
    else found.map (⟨s.now, component, host, ·⟩)
  | _ => none

/-- The builds of a life. -/
def builds (s : Catalog) : List Event → List Build
  | [] => []
  | .action a :: events => (s.build? a).toList ++ (s.act a).builds events
  | .runtimeLost :: events => s.loseRuntime.builds events

/-- What was built for a component on a host, and when. -/
def builtFor (component host : String) (bs : List Build) : List (Nat × String) :=
  bs.filterMap fun b => if b.component = component ∧ b.host = host then some (b.time, b.uri) else none

/-- What is left of the last build. -/
def remembered (lifetime now : Nat) (last : Option (Nat × String)) : Option String :=
  last.bind fun (time, uri) => if now - time < lifetime then some uri else none

theorem builtFor_concat (component host : String) (bs : List Build) (b : Build) :
    (builtFor component host (bs ++ [b])).getLast? =
      if b.component = component ∧ b.host = host then some (b.time, b.uri)
      else (builtFor component host bs).getLast? := by
  by_cases h : b.component = component ∧ b.host = host
  · simp [builtFor, h]
  · simp [builtFor, h]

theorem remembered_eq_some_iff {lifetime now : Nat} {last : Option (Nat × String)} {uri : String} :
    remembered lifetime now last = some uri ↔ ∃ time, last = some (time, uri) ∧ now - time < lifetime := by
  cases last with
  | none => simp [remembered]
  | some build =>
    obtain ⟨time, given⟩ := build
    by_cases fresh : now - time < lifetime <;> simp [remembered, fresh]

/-- Until the stop, lookups now and later find the last builds. -/
structure Remembers (lifetime : Nat) (s : Catalog) (bs : List Build) : Prop where
  lifetime_eq : s.tails.lifetime = lifetime
  past : ∀ b ∈ bs, b.time ≤ s.now
  found : s.phase ≠ .stopped → ∀ component host later, s.now ≤ later →
    s.tails.find? later (.ofPair component host) =
      remembered lifetime later (builtFor component host bs).getLast?

variable {lifetime : Nat} {s s' : Catalog} {bs : List Build} {b : Build} {a : Action}
  {base component host cluster : String}

theorem build?_of_not_running (h : s.phase ≠ .running) : s.build? a = none := by
  cases a with
  | tail base component host cluster => simp [build?, lookUpTail_of_not_running h]
  | _ => rfl

/-- A lookup that finds an address builds none. -/
theorem build?_of_find?_eq_some (running : s.phase = .running) {uri : String}
    (found : s.tails.find? s.now (.ofPair component host) = some uri) :
    s.build? (.tail base component host cluster) = none := by
  rw [build?, lookUpTail_of_running running, found]
  exact if_pos rfl

/-- A lookup that finds none builds what the remote side gives. -/
theorem build?_of_find?_eq_none (running : s.phase = .running)
    (missing : s.tails.find? s.now (.ofPair component host) = none) :
    s.build? (.tail base component host cluster) =
      (s.work.remote.address? base component host cluster).map (⟨s.now, component, host, ·⟩) := by
  have htails := s.work.remote.tails_addressed cluster
  rw [build?, lookUpTail_of_running running, missing]
  change (if (s.work.remote.addressed cluster).calls.tails = s.work.remote.calls.tails then none else _) = _
  cases reached : s.work.remote.reached? cluster with
  | none =>
    rw [reached, Option.isSome_none, if_neg Bool.false_ne_true] at htails
    rw [if_pos htails, Remote.address?, reached]
    rfl
  | some c =>
    rw [reached, Option.isSome_some, if_pos rfl] at htails
    rw [htails, if_neg (by omega)]

/-- Lookups of addresses go on without a runtime. -/
theorem sameAddresses_loseRuntime (s : Catalog) : s.loseRuntime.SameAddresses s := by
  refine ⟨rfl, ?_, rfl⟩
  rw [work_loseRuntime]
  exact ⟨rfl, rfl, rfl, rfl, fun _ _ => rfl⟩

theorem remembers_new (policy : Policy) (remote : Remote) :
    Remembers policy.lifetime (new policy remote) [] where
  lifetime_eq := rfl
  past _ hb := nomatch hb
  found _ component host later _ := by simp [new, Cache.find?, builtFor, remembered]

namespace Remembers

/-- What is fresh is what is remembered. -/
theorem of_fresh (h : Remembers lifetime s bs) (hp : s'.phase = s.phase) (hn : s'.now = s.now)
    (ht : s'.tails.fresh s.now = s.tails.fresh s.now) : Remembers lifetime s' bs where
  lifetime_eq := (Cache.lifetime_eq ht).trans h.lifetime_eq
  past := hn ▸ h.past
  found unstopped component host later hlater := by
    rw [hn] at hlater
    rw [Cache.find?_eq (Cache.fresh_later ht hlater)]
    exact h.found (hp ▸ unstopped) component host later hlater

theorem of_same (h : Remembers lifetime s bs) (same : s'.SameAddresses s) : Remembers lifetime s' bs :=
  h.of_fresh same.phase same.now (same.now ▸ same.tails)

theorem start (h : Remembers lifetime s bs) (runtime : Bool) :
    Remembers lifetime (s.act (.start runtime)) bs := by
  rcases act_start s runtime with e | ⟨idle, sweepAt, log, e⟩
  · rwa [e]
  · rw [e]
    exact ⟨h.lifetime_eq, h.past, fun _ => h.found (by simp [idle])⟩

theorem stop (h : Remembers lifetime s bs) : Remembers lifetime (s.act .stop) bs := by
  by_cases running : s.phase = .running
  · rw [act_stop_of_running running]
    exact ⟨h.lifetime_eq, h.past, fun unstopped => absurd rfl unstopped⟩
  · rwa [act_stop_of_not_running running]

theorem elapse (h : Remembers lifetime s bs) (ms : Nat) : Remembers lifetime (s.act (.elapse ms)) bs where
  lifetime_eq := h.lifetime_eq
  past b hb := Nat.le_add_right_of_le (h.past b hb)
  found unstopped component host later hlater :=
    h.found unstopped component host later (Nat.le_of_add_right_le hlater)

/-- A build is found from now on in place of all others for its log. -/
theorem insert (h : Remembers lifetime s bs) (running : s.phase = .running) (hn : s'.now = s.now)
    (hl : s'.tails.lifetime = s.tails.lifetime) (ht : b.time = s.now)
    (he : ∀ k : Key, s'.tails.entries[k]? =
      if Key.ofPair b.component b.host = k then some ⟨b.uri, s.now⟩ else s.tails.entries[k]?) :
    Remembers lifetime s' (bs ++ [b]) where
  lifetime_eq := hl.trans h.lifetime_eq
  past b' hb' := by
    rw [hn]
    rcases List.mem_append.1 hb' with hb' | hb'
    · exact h.past b' hb'
    · rw [List.mem_singleton.1 hb', ht]
  found _ component host later hlater := by
    rw [hn] at hlater
    rw [builtFor_concat, Cache.find?, he, hl, h.lifetime_eq]
    by_cases hkey : b.component = component ∧ b.host = host
    · obtain ⟨rfl, rfl⟩ := hkey
      simp [remembered, Entry.isFreshAt, ht]
    · have hfound := h.found (by simp [running]) component host later hlater
      rw [Cache.find?, h.lifetime_eq] at hfound
      rw [if_neg (mt Key.ofPair_inj.1 hkey), if_neg hkey, hfound]

/-- A lookup remembers what it builds. -/
theorem tail (h : Remembers lifetime s bs) (base component host cluster : String) :
    Remembers lifetime (s.act (.tail base component host cluster))
      (bs ++ (s.build? (.tail base component host cluster)).toList) := by
  by_cases running : s.phase = .running
  · rw [act, lookUpTail_of_running running]
    cases found : s.tails.find? s.now (.ofPair component host) with
    | some uri =>
      rw [build?_of_find?_eq_some running found, Option.toList_none, List.append_nil]
      exact h.of_fresh rfl rfl (Cache.fresh_get _ _ _)
    | none =>
      rw [build?_of_find?_eq_none running found]
      cases given : s.work.remote.address? base component host cluster with
      | none =>
        rw [Option.map_none, Option.toList_none, List.append_nil]
        exact h.of_fresh rfl rfl (Cache.fresh_get _ _ _)
      | some uri =>
        rw [Option.map_some, Option.toList_some]
        refine h.insert running rfl (Cache.get_lifetime _ _ _) rfl fun k => ?_
        change ((s.tails.get s.now (.ofPair component host)).2.insert _ _ _).entries[k]? = _
        rw [Cache.getElem?_insert, Cache.getElem?_get_of_find?_eq_none found]
        split <;> rfl
  · rw [build?_of_not_running running, act_tail_of_not_running running, Option.toList_none, List.append_nil]
    exact h

/-- Every action remembers what it builds besides what was remembered. -/
theorem act (h : Remembers lifetime s bs) (a : Action) :
    Remembers lifetime (s.act a) (bs ++ (s.build? a).toList) := by
  have hquiet (h' : Remembers lifetime (s.act a) bs) (hb : s.build? a = none) :
      Remembers lifetime (s.act a) (bs ++ (s.build? a).toList) := by
    rw [hb, Option.toList_none, List.append_nil]
    exact h'
  cases a with
  | start runtime => exact hquiet (h.start runtime) rfl
  | stop => exact hquiet h.stop rfl
  | names => exact hquiet (h.of_same (s.sameAddresses_of_isFetching rfl)) rfl
  | tail base component host cluster => exact h.tail base component host cluster
  | openGate | install | regroup => exact hquiet (h.of_fresh rfl rfl rfl) rfl
  | elapse ms => exact hquiet (h.elapse ms) rfl
  | background b =>
    cases b with
    | move m => exact hquiet (h.of_same (s.sameAddresses_of_isFetching rfl)) rfl
    | sweep => exact hquiet (h.of_same s.sameAddresses_sweep) rfl

theorem live (h : Remembers lifetime s bs) (events : List Event) :
    Remembers lifetime (s.live events) (bs ++ s.builds events) := by
  induction events generalizing s bs with
  | nil =>
    rw [builds, List.append_nil]
    exact h
  | cons e events ih =>
    cases e with
    | action a =>
      rw [builds, ← List.append_assoc]
      exact ih (h.act a)
    | runtimeLost => exact ih (h.of_same s.sameAddresses_loseRuntime)

/-- The last build decides what a running catalog finds. -/
theorem find?_eq (h : Remembers lifetime s bs) (running : s.phase = .running) (component host : String) :
    s.tails.find? s.now (.ofPair component host) =
      remembered lifetime s.now (builtFor component host bs).getLast? :=
  h.found (by simp [running]) component host s.now (Nat.le_refl _)

theorem time_le (h : Remembers lifetime s bs) {time : Nat} {uri : String}
    (hb : (builtFor component host bs).getLast? = some (time, uri)) : time ≤ s.now := by
  obtain ⟨b, hmem, e⟩ := List.mem_filterMap.1 (List.mem_of_getLast? hb)
  split at e
  · cases e
    exact h.past b hmem
  · exact nomatch e

end Remembers

/-- The answer of a lookup of an address in a running catalog depends on the last build for the component on
the host, whatever base and cluster that lookup and this one name. If it is less than the lifetime old, the
lookup answers with it, counts a hit and does nothing else: the remote side is not asked, nothing is built,
and the entry is as old as before. Otherwise the lookup counts a miss, asks the remote side and answers with
what that gives now. This is a build if it is an address, be it empty, and is cached under the key with the
present time. If it is nothing, nothing is cached under the key. The entries under other keys stay. -/
theorem lookUpTail_of_last_build (policy : Policy) (remote : Remote) (events : List Event)
    (running : ((new policy remote).live events).phase = .running)
    (base component host cluster : String) :
    let s := (new policy remote).live events
    let last := (builtFor component host ((new policy remote).builds events)).getLast?
    let given := s.work.remote.address? base component host cluster
    let lookup := Action.tail base component host cluster
    (∀ time uri, last = some (time, uri) → time ≤ s.now) ∧
    (∀ time uri, last = some (time, uri) → s.now - time < policy.lifetime →
      s.lookUpTail base component host cluster = (some uri, { s with work := s.work.count .tailHit }) ∧
      s.build? lookup = none) ∧
    ((∀ time uri, last = some (time, uri) → policy.lifetime ≤ s.now - time) →
      s.build? lookup = given.map (⟨s.now, component, host, ·⟩) ∧
      ∃ tails, s.lookUpTail base component host cluster =
          (given, { s with
            tails
            work := { s.work.count .tailMiss with remote := s.work.remote.addressed cluster } }) ∧
        ∀ k : Key, tails.entries[k]? =
          if Key.ofPair component host = k then given.map (⟨·, s.now⟩) else s.tails.entries[k]?) := by
  intro s last given lookup
  have h : Remembers policy.lifetime s ([] ++ (new policy remote).builds events) :=
    (remembers_new policy remote).live events
  rw [List.nil_append] at h
  have hfind : s.tails.find? s.now (.ofPair component host) = remembered policy.lifetime s.now last :=
    h.find?_eq running component host
  refine ⟨fun time uri hlast => h.time_le hlast, fun time uri hlast hfresh => ?_, fun hstale => ?_⟩
  · have found : s.tails.find? s.now (.ofPair component host) = some uri :=
      hfind.trans (remembered_eq_some_iff.2 ⟨time, hlast, hfresh⟩)
    refine ⟨?_, build?_of_find?_eq_some running found⟩
    rw [lookUpTail_of_running running, found, Cache.get_snd_of_find?_eq_some found]
  · have missing : s.tails.find? s.now (.ofPair component host) = none := by
      rw [hfind, Option.eq_none_iff_forall_ne_some]
      intro uri hfound
      obtain ⟨time, hlast, hfresh⟩ := remembered_eq_some_iff.1 hfound
      exact absurd (hstale time uri hlast) (Nat.not_le.2 hfresh)
    refine ⟨build?_of_find?_eq_none running missing,
      (s.tails.get s.now (.ofPair component host)).2.keep s.now (.ofPair component host) given, ?_,
      fun k => ?_⟩
    · rw [lookUpTail_of_running running, missing]
    · rw [Cache.getElem?_keep, Cache.getElem?_get_of_find?_eq_none missing]
      split
      · rw [Option.or_none]
      · rfl

/-- A remote side with one cluster, where every log is tailed under the base. -/
def tailing : Remote where
  controller := ⟨some "controller"⟩
  clusters name := if name = "east" then
      some { plan := fun _ _ => { reply := .silence }, tailAddress := fun base _ _ => some base }
    else none

/-- An address is found for another base and cluster until its hour is over, be it looked up in between. Then
it is lost, since that cluster is not there. -/
theorem lookUpTail_of_last_build_of_hour :
    let life : List Event := [.action (.start true), .action (.tail "a" "server" "host" "east"),
      .action (.elapse 3599999)]
    let s := (new (.ofHours 1) tailing).live life
    let later := (new (.ofHours 1) tailing).live (life ++
      [.action (.tail "b" "server" "host" "west"), .action (.elapse 1)])
    s.phase = .running ∧ later.phase = .running ∧
      (s.lookUpTail "b" "server" "host" "west").1 = some "a" ∧
      (later.lookUpTail "b" "server" "host" "west").1 = none := by
  intro life s later
  have hlast : builtFor "server" "host" ((new (.ofHours 1) tailing).builds life) = [(0, "a")] := by decide
  have hlast' : builtFor "server" "host" ((new (.ofHours 1) tailing).builds (life ++
      [.action (.tail "b" "server" "host" "west"), .action (.elapse 1)])) = [(0, "a")] := by decide
  have hnone : later.work.remote.address? "b" "server" "host" "west" = none := by decide
  obtain ⟨-, hhit, -⟩ :=
    lookUpTail_of_last_build (.ofHours 1) tailing life (by decide) "b" "server" "host" "west"
  obtain ⟨-, -, hmiss⟩ := lookUpTail_of_last_build (.ofHours 1) tailing (life ++
    [.action (.tail "b" "server" "host" "west"), .action (.elapse 1)]) (by decide) "b" "server" "host" "west"
  refine ⟨by decide, by decide, ?_, ?_⟩
  · rw [(hhit 0 "a" (by rw [hlast]; rfl) (by decide)).1]
  · obtain ⟨-, tails, e, -⟩ := hmiss fun time uri h => by
      rw [hlast'] at h
      cases h
      decide
    rw [e]
    exact hnone

end Catalog
end LogCatalog
