import LogCatalog.Proofs.Json.Natural
import LogCatalog.Proofs.Settings.Layers

/-!
# Settings from one variable

Where one variable sets a field and nothing else sets any, the text of the variable is accepted exactly if it
is the decimal numeral of a number in the range of the field, with blanks around it. The field then holds
this number. Any other text is refused as a value that the field does not take.
-/
namespace LogCatalog

namespace Text

theorem dropWhile_isBlank_eq_self {cs : List Char} (h : ∀ c ∈ cs, ¬isBlank c) :
    cs.dropWhile isBlank = cs := by
  cases cs with
  | nil => rfl
  | cons c cs => exact List.dropWhile_cons_of_neg (h c List.mem_cons_self)

theorem trim_eq_self {s : String} (h : ∀ c ∈ s.toList, ¬isBlank c) : trim s = s := by
  have hreverse : ∀ c ∈ s.toList.reverse, ¬isBlank c := fun c hc => h c (List.mem_reverse.1 hc)
  rw [trim, trimChars, dropWhile_isBlank_eq_self h, dropWhile_isBlank_eq_self hreverse, List.reverse_reverse,
    String.ofList_toList]

/-- A blank has no case. -/
theorem toLower_of_isBlank {c : Char} (h : isBlank c) : c.toLower = c := by
  have hupper : ¬('A'.val ≤ c.val ∧ c.val ≤ 'Z'.val) := by
    intro upper
    have hnat : c.toNat = c.val.toNat := rfl
    simp [isBlank, blankRanges, UInt32.le_iff_toNat_le] at h upper
    omega
  exact dif_neg hupper

end Text

namespace Field

/-- The least number that a field takes. -/
def least : Field → Nat
  | .fetchTimeoutMs => 1
  | .cacheHours | .fetchWorkers | .sweepSeconds => 0

/-- The greatest number that a field takes. -/
def greatest : Field → Nat
  | .cacheHours => 0xFFFFFFFF
  | .fetchTimeoutMs | .sweepSeconds => 0xFFFFFFFFFFFFFFFF
  | .fetchWorkers => 256

theorem greatest_lt (f : Field) : f.greatest < UInt64.size := by
  cases f <;> decide

variable {f : Field} {n : UInt64}

theorem inRange_iff : f.InRange n ↔ f.least ≤ n.toNat ∧ n.toNat ≤ f.greatest := by
  have hlt : n.toNat ≤ 0xFFFFFFFFFFFFFFFF := Nat.le_of_lt_succ n.toNat_lt
  cases f with
  | cacheHours => exact ⟨fun h => ⟨Nat.zero_le _, Nat.le_of_lt_succ h⟩, fun h => Nat.lt_succ_of_le h.2⟩
  | fetchTimeoutMs => exact ⟨fun h => ⟨h, hlt⟩, And.left⟩
  | fetchWorkers => exact ⟨fun h => ⟨Nat.zero_le _, h⟩, And.right⟩
  | sweepSeconds => exact ⟨fun _ => ⟨Nat.zero_le _, hlt⟩, fun _ => trivial⟩

/-- The name of a field can be written in any case. -/
theorem fieldName_of_toLower {written : String} (named : written.toLower = f.name) :
    Assignment.fieldName written = f.name := by
  have hname : f.name.toList.all (¬Text.isBlank ·) := by cases f <;> decide
  have hwritten : ∀ c ∈ written.toList, ¬Text.isBlank c := by
    intro c hc blank
    have hlower : c.toLower ∈ f.name.toList := by
      rw [← named]
      change c.toLower ∈ (written.map Char.toLower).toList
      rw [String.toList_map]
      exact List.mem_map_of_mem hc
    rw [Text.toLower_of_isBlank blank] at hlower
    exact of_decide_eq_true (List.all_eq_true.1 hname c hlower) blank
  rw [Assignment.fieldName, Text.trim_eq_self hwritten, named]

end Field

namespace Environment

variable {f : Field} {n : UInt64} {written raw : String} {env : Environment}

theorem readValue_eq_natural_iff : readValue raw = .natural n ↔ Json.Writes raw n.toNat := by
  rw [← Json.read?_eq_natural_iff, readValue]
  split
  · next empty =>
    rw [String.isEmpty_iff] at empty
    have hnone : Json.read? raw = none := by rw [empty]; rfl
    simp [hnone]
  · cases Json.read? raw with
    | none => simp
    | some value => simp [Json.canonical_eq_natural_iff]

/-- One variable has a name with the field mark, which it is written behind, and there are no overrides. -/
structure Single (env : Environment) (written raw : String) : Prop where
  marked : env.bindings.filter (fun v => (fieldPart? v.1).isSome) = [(fieldMark ++ written, raw)]
  plain : env.get? overrideName = none

theorem Single.assignments_eq (h : env.Single written raw) (named : written.toLower = f.name) :
    env.assignments = .ok [⟨f.name, readValue raw, .env⟩] := by
  have hassigned : env.bindings.filterMap assignment? =
      (env.bindings.filter fun v => (fieldPart? v.1).isSome).filterMap assignment? := by
    rw [List.filterMap_filter]
    refine List.filterMap_congr fun v _ => ?_
    cases hpart : fieldPart? v.1 <;> simp [assignment?, hpart]
  have hvariable : assignment? (fieldMark ++ written, raw) = some ⟨f.name, readValue raw, .env⟩ := by
    have hpart : fieldPart? (fieldMark ++ written) = some written := fieldPart?_eq_some_iff.2 rfl
    have hfilled : ¬f.name.isEmpty := by cases f <;> decide
    simp [assignment?, hpart, Field.fieldName_of_toLower named, hfilled]
  have hreads : env.Reads (.ok (env.bindings.filterMap assignment?)) := by
    refine .plain fun raw overridden => ?_
    rw [h.plain] at overridden
    cases overridden
  rw [← reads_iff]
  rwa [hassigned, h.marked, List.filterMap_cons_some hvariable] at hreads

end Environment

namespace Configuration

variable {f : Field} {n : UInt64} {written raw : String} {env : Environment} {files : List (Option File)}

theorem load_of_single (absent : ∀ file ∈ files, file = none) (single : env.Single written raw)
    (named : written.toLower = f.name) :
    load files (some env) = ({} : Configuration).assign ⟨f.name, Environment.readValue raw, .env⟩ := by
  have hlayers : layers files (some env) = [.assignment ⟨f.name, Environment.readValue raw, .env⟩] := by
    have hfiles : (files.flatMap fun file => (file.map fun f => Layer.ofResult f.assignments).getD []) = [] := by
      rw [List.flatMap_eq_nil_iff]
      intro file hfile
      rw [absent file hfile]
      rfl
    rw [layers, hfiles, List.nil_append, Option.map_some, single.assignments_eq named]
    rfl
  simp only [load_eq_foldlM, hlayers, List.foldlM_cons, List.foldlM_nil, bind_pure, lay]

/-- A field takes the text of a variable as the number that it writes. -/
theorem accept_readValue_iff : f.accept (Environment.readValue raw) = .ok n ↔
    Json.Writes raw n.toNat ∧ f.least ≤ n.toNat ∧ n.toNat ≤ f.greatest := by
  rw [Field.accept_eq_ok_iff, Environment.readValue_eq_natural_iff, Field.inRange_iff]

/-- No files, no overrides, and one variable with the field mark, behind which the name of a field is written
in any case. The load succeeds if and only if the text of the variable is the decimal numeral of a number in
the range of the field, with blanks around it. The field then holds just this number, from the environment,
and the others hold their defaults. With any other text the load is refused for a value that the field does
not take. -/
theorem load_of_variable (f : Field) (files : List (Option File)) (env : Environment) (written raw : String)
    (absent : ∀ file ∈ files, file = none) (single : env.Single written raw)
    (named : written.toLower = f.name) :
    let loaded := load files (some env)
    let accepted := ∃ n, Json.Writes raw n ∧ f.least ≤ n ∧ n ≤ f.greatest
    ((∃ c, loaded = .ok c) ↔ accepted) ∧
    (∀ c, loaded = .ok c →
      (∀ n, Json.Writes raw n → (c.settings.get f).toNat = n) ∧ c.provenance f = .env ∧
      ∀ g, g ≠ f → c.settings.get g = ({} : Settings).get g ∧ c.provenance g = .builtin) ∧
    (¬accepted → ∃ cause, loaded = .error (.invalidValue cause)) := by
  intro loaded accepted
  have hloaded : loaded = _ := load_of_single absent single named
  have hname : Field.ofName? f.name = some f := Field.ofName?_eq_some_iff.2 rfl
  cases haccept : f.accept (Environment.readValue raw) with
  | ok n =>
    obtain ⟨hwrites, hrange⟩ := accept_readValue_iff.1 haccept
    have hok : loaded = .ok (({} : Configuration).set f n .env) := by
      rw [hloaded]
      simp only [assign, hname, haccept]
    have haccepted : accepted := ⟨n.toNat, hwrites, hrange⟩
    refine ⟨⟨fun _ => haccepted, fun _ => ⟨_, hok⟩⟩, fun c hc => ?_, fun hnot => absurd haccepted hnot⟩
    obtain rfl := Except.ok.inj (hok.symm.trans hc)
    refine ⟨fun m hm => ?_, if_pos rfl, fun g hg => ⟨Settings.get_set_of_ne _ hg n, if_neg hg⟩⟩
    rw [set, Settings.get_set _ (Field.inRange_iff.2 hrange), hwrites.unique hm]
  | error cause =>
    have herror : loaded = .error (.invalidValue cause) := by
      rw [hloaded]
      simp only [assign, hname, haccept]
    have hrefused : ¬accepted := by
      rintro ⟨m, hwrites, hrange⟩
      have hword : (UInt64.ofNat m).toNat = m :=
        UInt64.toNat_ofNat_of_lt' (Nat.lt_of_le_of_lt hrange.2 f.greatest_lt)
      rw [← hword] at hwrites hrange
      cases haccept.symm.trans (accept_readValue_iff.2 ⟨hwrites, hrange⟩)
    refine ⟨⟨?_, fun h => absurd h hrefused⟩, ?_, fun _ => ⟨cause, herror⟩⟩
    · rintro ⟨c, hc⟩
      cases herror.symm.trans hc
    · intro c hc
      cases herror.symm.trans hc

/-- The largest number of workers, between blanks, in a variable whose name is written in mixed case. -/
theorem load_of_variable_of_workers :
    let env : Environment := .ofList [("HOME", "/home"), ("AMBARI_LOGSEARCH__Fetch_WORKERS", "\t256\n")]
    env.Single "Fetch_WORKERS" "\t256\n" ∧ "Fetch_WORKERS".toLower = Field.fetchWorkers.name ∧
      ∃ c, load [none] (some env) = .ok c ∧ c.settings.fetchWorkers.toNat = 256 ∧
        c.provenance .fetchWorkers = .env := by
  intro env
  have absent : ∀ file ∈ [(none : Option File)], file = none := by simp
  have single : env.Single "Fetch_WORKERS" "\t256\n" := ⟨by decide +kernel, by decide +kernel⟩
  have named : "Fetch_WORKERS".toLower = Field.fetchWorkers.name := by decide +kernel
  have hwrites : Json.Writes "\t256\n" 256 := ⟨"\t", "\n", by decide +kernel, by simp⟩
  obtain ⟨haccepted, hholds, -⟩ := load_of_variable .fetchWorkers [none] env _ _ absent single named
  obtain ⟨c, hc⟩ := haccepted.2 ⟨256, hwrites, by decide, by decide⟩
  obtain ⟨hnumber, hsource, -⟩ := hholds c hc
  exact ⟨single, named, c, hc, hnumber 256 hwrites, hsource⟩

end Configuration
end LogCatalog
