import LogCatalog.Proofs.Settings.Layers
import LogCatalog.Settings.Direct

/-!
# Two readers of the settings

A text that writes fields of the settings, each at most once, can be read directly or be laid on the defaults
as overrides. The direct reader takes every number that the type of a field holds, in the order of the text.
The other one goes through the entries in the order of their keys and takes the numbers in the range of the
field. Both leave the fields that are not written at their defaults.
-/
namespace LogCatalog

/-- The environment in which nothing but the text of overrides is set. -/
def Environment.overriding (text : String) : Environment := .ofList [(overrideName, text)]

/-- What the entries of the overrides assign. -/
def Assignment.ofEntries (entries : Json.Members) : List Assignment :=
  entries.map fun m => ⟨fieldName m.1, m.2, .env⟩

/-- The variable with the overrides sets no field of its own. -/
theorem Environment.filterMap_bindings_overriding (text : String) :
    (overriding text).bindings.filterMap assignment? = [] := by
  have hpart : fieldPart? overrideName = none := by decide
  have hbindings : (overriding text).bindings = [(overrideName, text)] := rfl
  simp [hbindings, assignment?, hpart]

namespace Field

variable {f : Field} {n : UInt64} {value : Json}

theorem name_inj {g : Field} : f.name = g.name ↔ f = g := by
  rw [← ofName?_eq_some_iff, ofName?_eq_some_iff.2 rfl, Option.some.injEq]

/-- Names of fields are in lower case already. -/
theorem fieldName_name (f : Field) : Assignment.fieldName f.name = f.name := by
  change (Text.trim f.name).map Char.toLower = f.name
  rw [← String.toList_inj, String.toList_map, Text.trim, String.toList_ofList]
  cases f <;> decide

theorem read?_eq_some_iff : f.read? value = some n ↔ value = .natural n ∧ f.fits n := by
  rw [read?, Option.filter_eq_some_iff, Json.natural?_eq_some_iff]

theorem fits_get (f : Field) (s : Settings) : f.fits (s.get f) := by
  cases f with
  | cacheHours =>
    have hlt : s.cacheHours.toUInt64.toNat < UInt32.size := by
      rw [UInt32.toNat_toUInt64]
      exact s.cacheHours.toNat_lt
    exact decide_eq_true hlt
  | fetchTimeoutMs | fetchWorkers | sweepSeconds => rfl

end Field

namespace Settings

variable {f g : Field} {n : UInt64} {value : Json} {ms : Json.Members} {s s' s'' : Settings} {seen : List Field}

theorem ext_get (h : ∀ f, s.get f = s'.get f) : s = s' := by
  have hhours : s.cacheHours = s'.cacheHours := by
    have hn := congrArg UInt64.toNat (h .cacheHours)
    simp only [get, UInt32.toNat_toUInt64] at hn
    exact UInt32.toNat_inj.1 hn
  cases s
  congr
  · exact h .fetchTimeoutMs
  · exact h .fetchWorkers
  · exact h .sweepSeconds

theorem get_set_of_fits (s : Settings) (h : f.fits n) : (s.set f n).get f = n := by
  cases f with
  | cacheHours => exact get_set (f := .cacheHours) s (of_decide_eq_true h)
  | fetchTimeoutMs | fetchWorkers | sweepSeconds => rfl

/-- What has to be in range beyond what the types of the fields hold. -/
theorem inRange_get_iff :
    (∀ f : Field, f.InRange (s.get f)) ↔ s.fetchTimeoutMs ≠ 0 ∧ s.fetchWorkers ≤ 256 := by
  have hzero : s.fetchTimeoutMs ≠ 0 ↔ 0 < s.fetchTimeoutMs.toNat := by
    rw [Nat.pos_iff_ne_zero, ne_eq, ← UInt64.toNat_inj]
    rfl
  have hworkers : s.fetchWorkers ≤ 256 ↔ s.fetchWorkers.toNat ≤ 256 := UInt64.le_iff_toNat_le
  rw [hzero, hworkers]
  refine ⟨fun h => ⟨h .fetchTimeoutMs, h .fetchWorkers⟩, fun ⟨htimeout, hmany⟩ f => ?_⟩
  cases f with
  | cacheHours => exact of_decide_eq_true (Field.fits_get .cacheHours s)
  | fetchTimeoutMs => exact htimeout
  | fetchWorkers => exact hmany
  | sweepSeconds => trivial

/-- The members write fields of the settings, each at most once, and nothing else. -/
structure Written (ms : Json.Members) : Prop where
  distinct : (ms.map Prod.fst).Nodup
  fields : ∀ m ∈ ms, ∃ f : Field, m.1 = f.name

/-- The settings `s'` are the settings `s` with the numbers that the members write for fields. -/
structure Takes (ms : Json.Members) (s s' : Settings) : Prop where
  written (f : Field) (value : Json) : (f.name, value) ∈ ms → value = .natural (s'.get f)
  unwritten (f : Field) : f.name ∉ ms.map Prod.fst → s'.get f = s.get f

theorem Takes.unique (h : Takes ms s s') (h' : Takes ms s s'') : s' = s'' := by
  apply ext_get
  intro f
  by_cases hf : f.name ∈ ms.map Prod.fst
  · obtain ⟨⟨name, value⟩, hm, hname⟩ := List.mem_map.1 hf
    subst hname
    exact Json.natural.inj ((h.written f value hm).symm.trans (h'.written f value hm))
  · rw [h.unwritten f hf, h'.unwritten f hf]

theorem takes_nil : Takes [] s s' ↔ s = s' := by
  constructor
  · intro h
    exact ext_get fun f => (h.unwritten f List.not_mem_nil).symm
  · rintro rfl
    exact ⟨fun _ _ hm => absurd hm List.not_mem_nil, fun _ _ => rfl⟩

/-- The first member is taken before the others, as they write other fields. -/
theorem takes_cons (hnew : g.name ∉ ms.map Prod.fst) :
    Takes ((g.name, value) :: ms) s s' ↔ ∃ n, g.read? value = some n ∧ Takes ms (s.set g n) s' := by
  constructor
  · intro h
    have hvalue : value = .natural (s'.get g) := h.written g value List.mem_cons_self
    refine ⟨s'.get g, Field.read?_eq_some_iff.2 ⟨hvalue, Field.fits_get g s'⟩,
      fun f w hw => h.written f w (List.mem_cons_of_mem _ hw), fun f hf => ?_⟩
    by_cases hfg : f = g
    · subst hfg
      exact (get_set_of_fits s (Field.fits_get f s')).symm
    · rw [get_set_of_ne s hfg]
      exact h.unwritten f (List.not_mem_cons_of_ne_of_not_mem (mt Field.name_inj.1 hfg) hf)
  · rintro ⟨n, hread, h⟩
    obtain ⟨rfl, hfits⟩ := Field.read?_eq_some_iff.1 hread
    have hg : s'.get g = n := (h.unwritten g hnew).trans (get_set_of_fits s hfits)
    refine ⟨fun f w hw => ?_, fun f hf => ?_⟩
    · rcases List.mem_cons.1 hw with hw | hw
      · obtain ⟨hname, rfl⟩ := Prod.mk.inj hw
        rw [Field.name_inj.1 hname, hg]
      · exact h.written f w hw
    · rw [List.map_cons, List.mem_cons, not_or] at hf
      rw [h.unwritten f hf.2, get_set_of_ne s (mt Field.name_inj.2 hf.1)]

/-- The direct reader goes through the members in their order. -/
theorem ofMembers?_eq_some_iff (h : Written ms) (unseen : ∀ f ∈ seen, f.name ∉ ms.map Prod.fst) :
    s.ofMembers? seen ms = some s' ↔ Takes ms s s' := by
  induction ms generalizing s seen with
  | nil => rw [ofMembers?, takes_nil, Option.some.injEq]
  | cons m ms ih =>
    obtain ⟨key, value⟩ := m
    obtain ⟨g, rfl⟩ := h.fields _ List.mem_cons_self
    obtain ⟨hnew, distinct⟩ := List.nodup_cons.1 h.distinct
    have hg : g ∉ seen := fun hg => unseen g hg List.mem_cons_self
    have hname : Field.ofName? g.name = some g := Field.ofName?_eq_some_iff.2 rfl
    have hrest (n : UInt64) : (s.set g n).ofMembers? (g :: seen) ms = some s' ↔ Takes ms (s.set g n) s' := by
      apply ih ⟨distinct, fun m hm => h.fields m (List.mem_cons_of_mem _ hm)⟩
      intro f hf
      rcases List.mem_cons.1 hf with rfl | hf
      · exact hnew
      · exact fun hmem => unseen f hf (List.mem_cons_of_mem _ hmem)
    simp only [ofMembers?, hname, Option.bind_eq_bind, Option.bind_some, Option.bind_eq_some_iff, if_neg hg,
      hrest, takes_cons hnew]

theorem read?_eq_some_iff {text : String} (parses : Json.read? text = some (.object ms)) (h : Written ms) :
    read? text = some s ↔ Takes ms {} s := by
  rw [read?, parses, Option.bind_some, ofJson?]
  exact ofMembers?_eq_some_iff h fun _ hf => nomatch hf

end Settings

namespace Configuration

variable {text : String} {ms entries : Json.Members} {c : Configuration} {s : Settings} {a : Assignment}

/-- The layers of a text of overrides are the entries of its object. -/
theorem layers_overriding (filled : Text.trim text ≠ "") (parses : Json.read? text = some (.object ms))
    (listed : Json.Entries ms entries) :
    layers [] (some (.overriding text)) = (Assignment.ofEntries entries).map .assignment := by
  have hwritten : (Environment.overriding text).get? Environment.overrideName = some text := rfl
  have hreads := Environment.reads_iff.1 (.extended hwritten filled parses (.object listed))
  rw [Environment.filterMap_bindings_overriding, List.nil_append] at hreads
  rw [layers, Option.map_some, hreads]
  rfl

/-- There is one assignment for each member. -/
theorem mem_ofEntries (h : Settings.Written ms) (listed : Json.Entries ms entries) :
    a ∈ Assignment.ofEntries entries ↔
      ∃ f : Field, ∃ value, (f.name, value) ∈ ms ∧ a = ⟨f.name, value.canonical, .env⟩ := by
  rw [Assignment.ofEntries, List.mem_map]
  constructor
  · rintro ⟨⟨name, value⟩, hm, rfl⟩
    obtain ⟨written, hw, rfl⟩ := (listed.mem_iff h.distinct).1 hm
    obtain ⟨f, rfl⟩ := h.fields _ hw
    exact ⟨f, written, hw, by rw [Field.fieldName_name]⟩
  · rintro ⟨f, value, hm, rfl⟩
    exact ⟨(f.name, value.canonical), (listed.mem_iff h.distinct).2 ⟨value, hm, rfl⟩,
      by rw [Field.fieldName_name]⟩

/-- What the entries assign is what the members write. -/
theorem Holds.takes (hc : Holds c (Assignment.ofEntries entries)) (h : Settings.Written ms)
    (listed : Json.Entries ms entries) : Settings.Takes ms {} c.settings where
  written f value hm := by
    have hmem := (mem_ofEntries h listed).2 ⟨f, value, hm, rfl⟩
    cases hlast : lastFor (Assignment.ofEntries entries) f with
    | none => exact absurd (Field.ofName?_eq_some_iff.2 rfl) (lastFor_eq_none_iff.1 hlast _ hmem)
    | some a =>
      obtain ⟨ha, hname⟩ := mem_of_lastFor_eq_some hlast
      obtain ⟨g, value', hm', rfl⟩ := (mem_ofEntries h listed).1 ha
      obtain rfl := Field.name_inj.1 (Field.ofName?_eq_some_iff.1 hname)
      -- the key is there only once, so the last assignment to the field is the one of this member
      rw [← Json.Members.lookup_eq_some_iff_mem h.distinct] at hm hm'
      rw [hm', Option.some.injEq] at hm
      exact hm ▸ Json.canonical_eq_natural_iff.1 (hc.named g _ hlast).1
  unwritten f hf := by
    refine (hc.unnamed f (lastFor_eq_none_iff.2 fun a ha hname => hf ?_)).1
    obtain ⟨g, value, hm, rfl⟩ := (mem_ofEntries h listed).1 ha
    exact List.mem_map.2 ⟨_, hm, Field.ofName?_eq_some_iff.1 hname⟩

/-- Overrides are accepted if and only if they are taken and leave every field in its range. -/
theorem load_overriding_iff (filled : Text.trim text ≠ "") (parses : Json.read? text = some (.object ms))
    (h : Settings.Written ms) :
    (∃ c, load [] (some (.overriding text)) = .ok c ∧ c.settings = s) ↔
      Settings.Takes ms {} s ∧ ∀ f : Field, f.InRange (s.get f) := by
  have listed := Json.entries_canonical ms
  have hlayers := layers_overriding filled parses listed
  have htakes {c : Configuration} (hc : load [] (some (.overriding text)) = .ok c) :
      Settings.Takes ms {} c.settings := by
    rw [load_eq_foldlM, hlayers] at hc
    obtain ⟨more, hmore, hholds⟩ := holds_default.foldlM hc
    rw [List.nil_append, ← List.map_injective_iff.2 (fun _ _ => Layer.assignment.inj) hmore] at hholds
    exact hholds.takes h listed
  constructor
  · rintro ⟨c, hc, rfl⟩
    exact ⟨htakes hc, inRange_of_load hc⟩
  · rintro ⟨taken, inRange⟩
    have haccepted : ∃ c, load [] (some (.overriding text)) = .ok c := by
      rw [load_eq_foldlM, exists_foldlM_eq_ok_iff, hlayers]
      intro l hl
      obtain ⟨a, ha, rfl⟩ := List.mem_map.1 hl
      obtain ⟨f, value, hm, rfl⟩ := (mem_ofEntries h listed).1 ha
      exact refusal?_assignment_eq_none_iff.2 ⟨f, s.get f, Field.ofName?_eq_some_iff.2 rfl,
        Json.canonical_eq_natural_iff.2 (taken.written f value hm), inRange f⟩
    obtain ⟨c, hc⟩ := haccepted
    exact ⟨c, hc, (htakes hc).unique taken⟩

theorem load_overriding_of_unparsed (filled : Text.trim text ≠ "") (broken : Json.read? text = none) :
    load [] (some (.overriding text)) = .error (.invalid .unparsed) := by
  have hwritten : (Environment.overriding text).get? Environment.overrideName = some text := rfl
  have hreads := Environment.reads_iff.1 (.unparsed hwritten filled broken)
  simp only [load, addFiles, addEnvironment, hreads]

/-- Two readers of one text. The text is not blank, and if it can be read at all, it is an object whose keys are
distinct and all names of fields. Laid on the defaults as overrides it is accepted if and only if it can be read
directly with a deadline that is not zero and at most 256 workers, and then both readers come to the same
settings. In these each field holds the natural number that the text writes for it, or else its default; with
any other value for a field the text cannot be read. -/
theorem readers_agree (text : String) (filled : Text.trim text ≠ "")
    (object : ∀ value, Json.read? text = some value → ∃ ms, value = .object ms ∧ Settings.Written ms) :
    let loaded := load [] (some (.overriding text))
    let direct := Settings.read? text
    ((∃ c, loaded = .ok c) ↔ ∃ s, direct = some s ∧ s.fetchTimeoutMs ≠ 0 ∧ s.fetchWorkers ≤ 256) ∧
    (∀ c s, loaded = .ok c → direct = some s → c.settings = s) ∧
    ∀ ms, Json.read? text = some (.object ms) → ∀ s, direct = some s ↔ Settings.Takes ms {} s := by
  intro loaded direct
  cases parses : Json.read? text with
  | none =>
    have hloaded : loaded = .error (.invalid .unparsed) := load_overriding_of_unparsed filled parses
    have hdirect : direct = none := by simp [direct, Settings.read?, parses]
    simp [hloaded, hdirect]
  | some value =>
    obtain ⟨ms, rfl, written⟩ := object value parses
    have hdirect (s : Settings) : direct = some s ↔ Settings.Takes ms {} s :=
      Settings.read?_eq_some_iff parses written
    have hloaded (s : Settings) : (∃ c, loaded = .ok c ∧ c.settings = s) ↔
        direct = some s ∧ s.fetchTimeoutMs ≠ 0 ∧ s.fetchWorkers ≤ 256 := by
      rw [hdirect, ← Settings.inRange_get_iff]
      exact load_overriding_iff filled parses written
    refine ⟨⟨?_, ?_⟩, fun c s hc hs => ?_, fun ms' h => ?_⟩
    · rintro ⟨c, hc⟩
      exact ⟨c.settings, (hloaded c.settings).1 ⟨c, hc, rfl⟩⟩
    · rintro ⟨s, hs⟩
      obtain ⟨c, hc, -⟩ := (hloaded s).2 hs
      exact ⟨c, hc⟩
    · obtain ⟨hread, -⟩ := (hloaded c.settings).1 ⟨c, hc, rfl⟩
      exact Option.some.inj (hread.symm.trans hs)
    · obtain rfl := Json.object.inj (Option.some.inj h)
      exact hdirect

/-- The largest number of workers that is accepted. -/
theorem readers_agree_of_workers :
    let text := "\x7b\"fetch_workers\": 256\x7d"
    Text.trim text ≠ "" ∧ Settings.read? text = some { fetchWorkers := 256 } ∧
      ∃ c, load [] (some (.overriding text)) = .ok c ∧ c.settings = { fetchWorkers := 256 } := by
  intro text
  have filled : Text.trim text ≠ "" := by decide
  have hkeys : (Json.read? text).all fun
      | .object ms => ms.map Prod.fst = ["fetch_workers"]
      | _ => false := by decide +kernel
  have hdirect : Settings.read? text = some { fetchWorkers := 256 } := by decide +kernel
  have object (value : Json) (parses : Json.read? text = some value) :
      ∃ ms, value = .object ms ∧ Settings.Written ms := by
    rw [parses, Option.all_some] at hkeys
    cases value with
    | object ms =>
      have hms : ms.map Prod.fst = ["fetch_workers"] := of_decide_eq_true hkeys
      refine ⟨ms, rfl, by simp [hms], fun m hm => ⟨.fetchWorkers, ?_⟩⟩
      exact List.mem_singleton.1 (hms ▸ List.mem_map_of_mem hm)
    | _ => exact nomatch hkeys
  obtain ⟨haccepted, hsame, -⟩ := readers_agree text filled object
  obtain ⟨c, hc⟩ := haccepted.2 ⟨_, hdirect, by decide, by decide⟩
  exact ⟨filled, hdirect, c, hc, hsame c _ hc hdirect⟩

end Configuration
end LogCatalog
