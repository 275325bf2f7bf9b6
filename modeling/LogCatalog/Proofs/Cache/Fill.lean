import LogCatalog.Fetch
import LogCatalog.Proofs.Cache.Record
import LogCatalog.Proofs.Key.Codec

/-!
# Filling the cache from a listing

In the epoch that the fetch noted, every row of the listing is written under the key of its component
on the host. In any other epoch nothing is written.
-/
namespace LogCatalog.Cache

variable {c : Cache NameSet} {epoch : UInt64} {now entries : Nat} {host : String}
  {rows : List (String × List String)}

/-- The entry that a listing writes under a key. -/
def listedEntry (now : Nat) (host : String) (rows : List (String × List String)) : Record NameSet :=
  fun k => (rows.find? fun row => Key.ofPair row.1 host = k).map fun row =>
    ⟨Std.ExtTreeSet.ofList row.2, now⟩

theorem fill_of_epoch_ne (h : c.epoch ≠ epoch) (hr : rows ≠ []) :
    c.fill epoch now host rows entries = (.discarded, c) := by
  obtain ⟨⟨component, names⟩, rest, rfl⟩ := List.exists_cons_of_ne_nil hr
  simp [fill, insertAt, h]

theorem fill_cons_of_epoch_eq (h : c.epoch = epoch) (row : String × List String)
    (rows : List (String × List String)) :
    c.fill epoch now host (row :: rows) entries =
      (c.insert now (.ofPair row.1 host) (Std.ExtTreeSet.ofList row.2)).fill epoch now host rows
        (entries + 1) := by
  simp [fill, insertAt, h]

theorem fill_fst (h : c.epoch = epoch) :
    (c.fill epoch now host rows entries).1 = .stored (entries + rows.length) := by
  induction rows generalizing c entries with
  | nil => rfl
  | cons row rows ih =>
    rw [fill_cons_of_epoch_eq h]
    have hc : (c.insert now (.ofPair row.1 host) (Std.ExtTreeSet.ofList row.2)).epoch = epoch := h
    rw [ih hc, List.length_cons]
    congr 1
    omega

theorem fill_frame (c : Cache NameSet) (epoch : UInt64) (now : Nat) (host : String)
    (rows : List (String × List String)) (entries : Nat) :
    (c.fill epoch now host rows entries).2.lifetime = c.lifetime ∧
      (c.fill epoch now host rows entries).2.epoch = c.epoch := by
  induction rows generalizing c entries with
  | nil => exact ⟨rfl, rfl⟩
  | cons row rows ih =>
    by_cases h : c.epoch = epoch
    · rw [fill_cons_of_epoch_eq h]
      exact ih _ _
    · rw [fill_of_epoch_ne h (List.cons_ne_nil _ _)]
      exact ⟨rfl, rfl⟩

theorem listedEntry_cons_of_eq (row : String × List String) {k : Key}
    (h : Key.ofPair row.1 host = k) :
    listedEntry now host (row :: rows) k = some ⟨Std.ExtTreeSet.ofList row.2, now⟩ := by
  simp [listedEntry, h]

theorem listedEntry_cons_of_ne (row : String × List String) {k : Key}
    (h : Key.ofPair row.1 host ≠ k) :
    listedEntry now host (row :: rows) k = listedEntry now host rows k := by
  simp [listedEntry, h]

/-- No other row has the key of a row, since each component is listed once. -/
theorem ofPair_ne_of_not_listed {component : String} (h : component ∉ rows.map Prod.fst)
    {row : String × List String} (hrow : row ∈ rows) :
    Key.ofPair row.1 host ≠ .ofPair component host := by
  intro hk
  rw [← (Key.ofPair_inj.1 hk).1] at h
  exact h (List.mem_map_of_mem hrow)

theorem listedEntry_of_not_listed {component : String} (h : component ∉ rows.map Prod.fst) :
    listedEntry now host rows (.ofPair component host) = none := by
  simp only [listedEntry, Option.map_eq_none_iff, List.find?_eq_none, decide_eq_true_eq]
  intro row hrow
  exact ofPair_ne_of_not_listed h hrow

theorem getElem?_fill (h : c.epoch = epoch) (hd : (rows.map Prod.fst).Nodup) (k : Key) :
    (c.fill epoch now host rows entries).2.entries[k]? =
      (listedEntry now host rows k).or c.entries[k]? := by
  induction rows generalizing c entries with
  | nil => simp [fill, listedEntry]
  | cons row rows ih =>
    rw [List.map_cons, List.nodup_cons] at hd
    rw [fill_cons_of_epoch_eq h, ih (by exact h) hd.2, getElem?_insert]
    by_cases hk : Key.ofPair row.1 host = k
    · subst hk
      rw [listedEntry_of_not_listed hd.1, listedEntry_cons_of_eq row rfl]
      simp
    · rw [listedEntry_cons_of_ne row hk]
      simp [hk]

/-- What the rows list for one component on the host decides about its key. -/
theorem listedEntry_ofPair (now : Nat) (host component : String) (rows : List (String × List String)) :
    listedEntry now host rows (.ofPair component host) =
      (rows.lookup component).map fun names => ⟨Std.ExtTreeSet.ofList names, now⟩ := by
  induction rows with
  | nil => rfl
  | cons row rows ih =>
    obtain ⟨listed, names⟩ := row
    by_cases hc : component = listed
    · have hk : Key.ofPair listed host = .ofPair component host := by rw [hc]
      rw [listedEntry_cons_of_eq (listed, names) hk, hc, List.lookup_cons_self, Option.map_some]
    · have hk : Key.ofPair listed host ≠ .ofPair component host :=
        fun e => hc (Key.ofPair_inj.1 e).1.symm
      have hb : (component == listed) = false := by simpa using hc
      rw [listedEntry_cons_of_ne (listed, names) hk, ih, List.lookup_cons, hb]

theorem listedEntry_other_host {component h : String} (hh : host ≠ h) :
    listedEntry now host rows (.ofPair component h) = none := by
  simp only [listedEntry, Option.map_eq_none_iff, List.find?_eq_none, decide_eq_true_eq, Key.ofPair_inj]
  exact fun _ _ e => hh e.2

end LogCatalog.Cache
