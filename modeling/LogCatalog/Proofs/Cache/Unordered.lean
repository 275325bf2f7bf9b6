import LogCatalog.Proofs.Cache.Fill
import Mathlib.Data.List.Perm.Basic
import Mathlib.Data.List.Nodup

/-!
# The order of a listing

The rows of a listing come in no particular order, and neither do the names in a row. Distinct components
have distinct keys on a host, so what is stored is decided by the sets of names that are listed.
-/
namespace LogCatalog

/-- Both list the same components, and the same names for each. -/
structure Listing.Alike (l l' : Listing) : Prop where
  components : ∀ component, component ∈ l.rows.map Prod.fst ↔ component ∈ l'.rows.map Prod.fst
  names : ∀ component names names', (component, names) ∈ l.rows → (component, names') ∈ l'.rows →
    ∀ name, name ∈ names ↔ name ∈ names'

theorem Listing.Alike.symm {l l' : Listing} (h : l.Alike l') : l'.Alike l where
  components component := (h.components component).symm
  names component names names' hrow hrow' name := (h.names component names' names hrow' hrow name).symm

namespace Cache

variable {c : Cache NameSet} {epoch : UInt64} {now entries : Nat} {host : String}
  {rows : List (String × List String)} {k : Key} {e : Entry NameSet} {l l' : Listing}

theorem listedEntry_eq_some_iff (hd : (rows.map Prod.fst).Nodup) :
    listedEntry now host rows k = some e ↔
      ∃ row ∈ rows, Key.ofPair row.1 host = k ∧ ⟨.ofList row.2, now⟩ = e := by
  induction rows with
  | nil => simp [listedEntry]
  | cons row rows ih =>
    rw [List.map_cons, List.nodup_cons] at hd
    rw [List.exists_mem_cons_iff, ← ih hd.2]
    by_cases hk : Key.ofPair row.1 host = k
    · subst hk
      rw [listedEntry_cons_of_eq row rfl, listedEntry_of_not_listed hd.1]
      simp
    · rw [listedEntry_cons_of_ne row hk]
      simp [hk]

/-- Listings that are alike give every key the same entry. -/
theorem listedEntry_congr (h : l.Alike l') (now : Nat) (host : String) :
    listedEntry now host l.rows = listedEntry now host l'.rows := by
  have himp {l l' : Listing} (h : l.Alike l') {k : Key} {e : Entry NameSet}
      (he : listedEntry now host l.rows k = some e) : listedEntry now host l'.rows k = some e := by
    rw [listedEntry_eq_some_iff l.distinct] at he
    obtain ⟨⟨component, names⟩, hrow, hk, rfl⟩ := he
    have hlisted := (h.components component).1 (List.mem_map_of_mem hrow)
    obtain ⟨⟨_, names'⟩, hrow', rfl⟩ := List.mem_map.1 hlisted
    have hnames : (.ofList names' : NameSet) = .ofList names := by
      ext name
      simp [h.names _ names names' hrow hrow' name]
    rw [listedEntry_eq_some_iff l'.distinct]
    exact ⟨_, hrow', hk, by rw [hnames]⟩
  funext k
  ext e
  exact ⟨himp h, himp h.symm⟩

theorem length_rows_congr (h : l.Alike l') : l.rows.length = l'.rows.length := by
  have hperm : (l.rows.map Prod.fst).Perm (l'.rows.map Prod.fst) :=
    (List.perm_ext_iff_of_nodup l.distinct l'.distinct).2 h.components
  simpa using hperm.length_eq

theorem size_insert (c : Cache NameSet) (now : Nat) (k : Key) (value : NameSet) :
    (c.insert now k value).size = c.size + if c.entries[k]?.isNone then 1 else 0 := by
  rw [size, insert, Std.ExtTreeMap.size_insert, size]
  by_cases hk : k ∈ c.entries <;> simp [hk]

/-- The rows have different keys, so each of them adds an entry unless its key had one before. -/
theorem size_fill (he : c.epoch = epoch) (hd : (rows.map Prod.fst).Nodup) :
    (c.fill epoch now host rows entries).2.size =
      c.size + rows.countP fun row => c.entries[Key.ofPair row.1 host]?.isNone := by
  induction rows generalizing c entries with
  | nil => rfl
  | cons row rows ih =>
    rw [List.map_cons, List.nodup_cons] at hd
    obtain ⟨c', hc'⟩ : ∃ c', c' = c.insert now (.ofPair row.1 host) (Std.ExtTreeSet.ofList row.2) :=
      ⟨_, rfl⟩
    have hlater : ∀ later ∈ rows,
        c'.entries[Key.ofPair later.1 host]? = c.entries[Key.ofPair later.1 host]? := by
      intro later hrow
      rw [hc', getElem?_insert, if_neg (ofPair_ne_of_not_listed hd.1 hrow).symm]
    have hcount : rows.countP (fun later => c'.entries[Key.ofPair later.1 host]?.isNone) =
        rows.countP fun later => c.entries[Key.ofPair later.1 host]?.isNone := by
      apply List.countP_congr
      intro later hrow
      rw [hlater later hrow]
    have he' : c'.epoch = epoch := hc' ▸ he
    have hsize : c'.size = c.size + if c.entries[Key.ofPair row.1 host]?.isNone then 1 else 0 := by
      rw [hc', size_insert]
    rw [fill_cons_of_epoch_eq he, ← hc', ih he' hd.2, hcount, hsize, List.countP_cons]
    omega

/-- Listings that are alike leave the same cache with the same outcome, and in the epoch that was noted the
cache holds one more entry for each listed component whose key had none. -/
theorem fill_unordered (c : Cache NameSet) (epoch : UInt64) (now : Nat) (host : String) (l l' : Listing)
    (h : l.Alike l') :
    c.fill epoch now host l.rows 0 = c.fill epoch now host l'.rows 0 ∧
    (c.epoch = epoch → (c.fill epoch now host l.rows 0).2.size =
      c.size + l.rows.countP fun row => c.entries[Key.ofPair row.1 host]?.isNone) := by
  refine ⟨?_, fun he => size_fill he l.distinct⟩
  have hlength : l.rows.length = l'.rows.length := length_rows_congr h
  by_cases he : c.epoch = epoch
  · apply Prod.ext
    · rw [fill_fst he, fill_fst he, hlength]
    · apply eq_of_getElem?
      · simp [fill_frame]
      · simp [fill_frame]
      · intro k
        rw [getElem?_fill he l.distinct, getElem?_fill he l'.distinct, listedEntry_congr h]
  · by_cases hrows : l.rows = []
    · have hrows' : l'.rows = [] := by
        rw [← List.length_eq_zero_iff, ← hlength, hrows, List.length_nil]
      rw [hrows, hrows']
    · have hrows' : l'.rows ≠ [] := by
        rwa [← List.length_pos_iff, ← hlength, List.length_pos_iff]
      rw [fill_of_epoch_ne he hrows, fill_of_epoch_ne he hrows']

/-- The other order of rows and names, with a name twice. -/
theorem fill_unordered_of_reversed :
    let l := Listing.ofRows [("agent", ["a.log", "b.log"]), ("server+1", [])]
    let l' := Listing.ofRows [("server+1", []), ("agent", ["b.log", "a.log", "b.log"])]
    let c : Cache NameSet := { lifetime := 60 }
    l.Alike l' ∧ c.fill 0 5 "h1" l.rows 0 = c.fill 0 5 "h1" l'.rows 0 ∧
      (c.fill 0 5 "h1" l.rows 0).2.size = 2 := by
  intro l l' c
  have hrows : l.rows = [("agent", ["a.log", "b.log"]), ("server+1", [])] := by decide
  have hrows' : l'.rows = [("server+1", []), ("agent", ["b.log", "a.log", "b.log"])] := by decide
  have h : l.Alike l' := by
    constructor
    · intro component
      simp [hrows, hrows', or_comm]
    · intro component names names' hrow hrow' name
      rw [hrows] at hrow
      rw [hrows'] at hrow'
      simp only [List.mem_cons, List.not_mem_nil, or_false, Prod.mk.injEq] at hrow hrow'
      rcases hrow with ⟨rfl, rfl⟩ | ⟨rfl, rfl⟩ <;> rcases hrow' with ⟨hc, rfl⟩ | ⟨hc, rfl⟩
      · simp at hc
      · simp; tauto
      · rfl
      · simp at hc
  refine ⟨h, (fill_unordered c 0 5 "h1" l l' h).1, ?_⟩
  rw [(fill_unordered c 0 5 "h1" l l' h).2 rfl, hrows]
  rfl

end Cache
end LogCatalog
