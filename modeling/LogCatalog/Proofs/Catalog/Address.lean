import LogCatalog.Proofs.Catalog.Act
import LogCatalog.Proofs.Remote.Contact

/-!
# Lookups of addresses

A lookup of an address in a running catalog answers with the cached address, or else with what the
remote side gives now, and caches just that.
-/
namespace LogCatalog

/-- The cache after an attempt to get a value for a key. -/
def Cache.keep {α : Type} (c : Cache α) (now : Nat) (k : Key) : Option α → Cache α
  | some value => c.insert now k value
  | none => c

theorem Cache.getElem?_keep {α : Type} (c : Cache α) (now : Nat) (k j : Key) (value : Option α) :
    (c.keep now k value).entries[j]? =
      if k = j then (value.map (⟨·, now⟩)).or c.entries[j]? else c.entries[j]? := by
  cases value with
  | none => simp [keep]
  | some v => simp [keep, getElem?_insert]

namespace Catalog

variable {s : Catalog}

theorem buildTail_eq (s : Catalog) (base component host cluster : String) :
    s.buildTail base component host cluster =
      (s.work.remote.address? base component host cluster,
        { s with
          work := { s.work with remote := s.work.remote.addressed cluster }
          tails := s.tails.keep s.now (.ofPair component host)
            (s.work.remote.address? base component host cluster) }) := by
  unfold buildTail Remote.address? Remote.addressed
  rcases s.work.remote.contact_cases cluster with ⟨-, hc, e⟩ | ⟨-, hc, e⟩ | ⟨c, hc, e⟩
  · simp only [hc, e]
    rfl
  · simp only [hc, e]
    rfl
  · simp only [hc, e, Remote.askTail, Option.bind_some]
    have htails : s.work.remote.contacted.calls.tails = s.work.remote.calls.tails :=
      s.work.remote.contacted_frame.2.2
    rw [htails]
    cases c.tailAddress base component host <;> rfl

theorem lookUpTail_of_not_running (h : s.phase ≠ .running) (base component host cluster : String) :
    s.lookUpTail base component host cluster = (none, s) := by
  simp [lookUpTail, h]

theorem lookUpTail_of_running (h : s.phase = .running) (base component host cluster : String) :
    s.lookUpTail base component host cluster =
      match s.tails.find? s.now (.ofPair component host) with
      | some uri => (some uri,
          { s with
            tails := (s.tails.get s.now (.ofPair component host)).2
            work := s.work.count .tailHit })
      | none => (s.work.remote.address? base component host cluster,
          { s with
            tails := (s.tails.get s.now (.ofPair component host)).2.keep s.now
              (.ofPair component host) (s.work.remote.address? base component host cluster)
            work := { s.work.count .tailMiss with remote := s.work.remote.addressed cluster } }) := by
  rw [lookUpTail, if_pos h, ← Cache.get_fst]
  cases s.tails.get s.now (.ofPair component host) with
  | mk found tails =>
    cases found with
    | some uri => rfl
    | none => exact buildTail_eq _ base component host cluster

end Catalog
end LogCatalog
