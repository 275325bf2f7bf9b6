import LogCatalog.Proofs.Cache.Fill
import LogCatalog.Proofs.Cache.LastWrite

/-!
# Listings that are interrupted

The rows of a listing are written one by one, and others may use the cache before each of them. A clearing
that falls in between wipes the rows that were written before it and begins an epoch in which the next row
is refused. So a listing is stored as a whole, or the cache is left as others alone would have left it.
-/
namespace LogCatalog.Timeline

/-- Writes the rows one by one and stops at the first one that is refused. Right before the row of a
component others give their commands to the cache. -/
def fillAmid (t : Timeline NameSet) (epoch : UInt64) (host : String)
    (others : String → List (Command NameSet)) :
    List (String × List String) → Nat → Outcome × Timeline NameSet
  | [], entries => (.stored entries, t)
  | (component, names) :: rows, entries =>
    let t := t.run (others component)
    match t.cache.insertAt epoch t.now (.ofPair component host) (Std.ExtTreeSet.ofList names) with
    | (true, cache) => fillAmid { t with cache } epoch host others rows (entries + 1)
    | (false, cache) => (.discarded, { t with cache })

/-- What others did by the time that the rows were through. -/
def meanwhile (others : String → List (Command NameSet)) (rows : List (String × List String)) :
    List (Command NameSet) :=
  rows.flatMap fun row => others row.1

/-- Whether a command can change what is held under a key. A lookup may drop the entry of its key. -/
def Command.touches {α : Type} (k : Key) : Command α → Bool
  | .insert j _ | .insertAt _ j _ | .get j | .contains j => j = k
  | .clear | .dropStale => true
  | .advance _ | .lifetime => false

section Frame
variable {α : Type} {s t : Timeline α} {c : Command α} {k : Key}

/-- The two differ in their entries alone. -/
structure InStep (s t : Timeline α) : Prop where
  now : s.now = t.now
  lifetime : s.cache.lifetime = t.cache.lifetime
  epoch : s.cache.epoch = t.cache.epoch

theorem run_cons (t : Timeline α) (c : Command α) (commands : List (Command α)) :
    t.run (c :: commands) = (t.perform c).2.run commands := rfl

theorem run_append (t : Timeline α) (before after : List (Command α)) :
    t.run (before ++ after) = (t.run before).run after :=
  List.foldl_append

theorem InStep.refl (t : Timeline α) : InStep t t := ⟨rfl, rfl, rfl⟩

theorem InStep.perform (h : InStep s t) (c : Command α) : InStep (s.perform c).2 (t.perform c).2 := by
  obtain ⟨hnow, hlifetime, hepoch⟩ := h
  cases c with
  | insertAt epoch k value =>
    rw [perform_insertAt, perform_insertAt, hepoch]
    split <;> exact ⟨hnow, hlifetime, hepoch⟩
  | get k | contains k =>
    constructor <;> simp [Timeline.perform, Cache.contains, hnow, hlifetime, hepoch]
  | clear => exact ⟨hnow, hlifetime, congrArg (· + 1) hepoch⟩
  | advance time => exact ⟨congrArg (· + time) hnow, hlifetime, hepoch⟩
  | insert | dropStale | lifetime => exact ⟨hnow, hlifetime, hepoch⟩

theorem InStep.run (h : InStep s t) (commands : List (Command α)) :
    InStep (s.run commands) (t.run commands) := by
  induction commands generalizing s t with
  | nil => exact h
  | cons c commands ih => exact ih (h.perform c)

/-- A clearing takes away the only difference. -/
theorem InStep.perform_clear (h : InStep s t) : s.perform .clear = t.perform .clear := by
  obtain ⟨now, lifetime, epoch, entries⟩ := s
  obtain ⟨rfl, rfl, rfl⟩ := h
  rfl

theorem clears_cons (c : Command α) (commands : List (Command α)) :
    clears (c :: commands) = clears commands + if c.isClear then 1 else 0 := by
  simp [clears, List.countP_cons]

theorem InStep.run_eq (h : InStep s t) {commands : List (Command α)} (hc : clears commands ≠ 0) :
    s.run commands = t.run commands := by
  induction commands generalizing s t with
  | nil => exact absurd rfl hc
  | cons c commands ih =>
    rw [run_cons, run_cons]
    by_cases hclear : c.isClear
    · obtain rfl : c = .clear := by cases c <;> simp_all [Command.isClear]
      rw [h.perform_clear]
    · apply ih (h.perform c)
      rwa [clears_cons, if_neg hclear] at hc

theorem now_perform (t : Timeline α) (c : Command α) : (t.perform c).2.now = t.now + c.duration := by
  cases c <;> rfl

theorem now_run (t : Timeline α) (commands : List (Command α)) :
    (t.run commands).now = t.now + elapsed commands := by
  induction commands using List.reverseRecOn with
  | nil => rfl
  | append_singleton commands c ih =>
    rw [run_append, elapsed_concat, ← Nat.add_assoc, ← ih]
    apply now_perform

theorem elapsed_append (before after : List (Command α)) :
    elapsed (before ++ after) = elapsed before + elapsed after := by
  induction after using List.reverseRecOn with
  | nil => simp [elapsed]
  | append_singleton after c ih =>
    rw [← List.append_assoc, elapsed_concat, elapsed_concat, ih, Nat.add_assoc]

theorem epoch_perform (t : Timeline α) (c : Command α) :
    (t.perform c).2.cache.epoch = t.cache.epoch + if c.isClear then 1 else 0 := by
  cases c with
  | insertAt epoch k value =>
    rw [perform_insertAt]
    split <;> simp [Command.isClear, Cache.insert]
  | _ => simp [perform, Cache.contains, Cache.insert, Cache.clear, Cache.dropStale, Command.isClear]

theorem epoch_run_add (t : Timeline α) (commands : List (Command α)) :
    (t.run commands).cache.epoch = t.cache.epoch + .ofNat (clears commands) := by
  induction commands generalizing t with
  | nil => simp [run, clears]
  | cons c commands ih =>
    rw [run_cons, ih, epoch_perform, clears_cons, UInt64.ofNat_add, UInt64.add_assoc]
    congr 1
    split <;> simp [UInt64.add_comm]

theorem epoch_run_of_no_clear (t : Timeline α) {commands : List (Command α)} (h : clears commands = 0) :
    (t.run commands).cache.epoch = t.cache.epoch := by
  rw [epoch_run_add, h]
  simp

/-- As long as they are few, clearings show in the epoch. -/
theorem epoch_run_iff (t : Timeline α) {commands : List (Command α)} (h : clears commands < UInt64.size) :
    (t.run commands).cache.epoch = t.cache.epoch ↔ clears commands = 0 := by
  rw [epoch_run_add, ← UInt64.toNat_inj, UInt64.toNat_add, UInt64.toNat_ofNat']
  have := t.cache.epoch.toNat_lt
  simp only [UInt64.size] at *
  omega

theorem getElem?_perform (h : ¬c.touches k) :
    (t.perform c).2.cache.entries[k]? = t.cache.entries[k]? := by
  cases c with
  | insert j value =>
    have hj : j ≠ k := by simpa [Command.touches] using h
    simp [perform, Cache.getElem?_insert, hj]
  | insertAt epoch j value =>
    have hj : j ≠ k := by simpa [Command.touches] using h
    rw [perform_insertAt]
    split
    · simp [Cache.getElem?_insert, hj]
    · rfl
  | get j | contains j =>
    have hj : j ≠ k := by simpa [Command.touches] using h
    simp [perform, Cache.contains, Cache.getElem?_get, hj]
  | clear | dropStale => exact absurd rfl h
  | advance | lifetime => rfl

theorem getElem?_run {commands : List (Command α)} (h : ∀ c ∈ commands, ¬c.touches k) :
    (t.run commands).cache.entries[k]? = t.cache.entries[k]? := by
  induction commands generalizing t with
  | nil => rfl
  | cons c commands ih =>
    rw [List.forall_mem_cons] at h
    rw [run_cons, ih h.2, getElem?_perform h.1]

end Frame

section Fill
variable {t : Timeline NameSet} {epoch : UInt64} {host : String}
  {others : String → List (Command NameSet)} {rows : List (String × List String)} {entries : Nat}

theorem meanwhile_cons (row : String × List String) (rows : List (String × List String)) :
    meanwhile others (row :: rows) = others row.1 ++ meanwhile others rows := rfl

/-- The cache after others had their turn and the row was written. -/
def afterRow (t : Timeline NameSet) (host : String) (others : String → List (Command NameSet))
    (row : String × List String) : Timeline NameSet :=
  ((t.run (others row.1)).perform (.insert (.ofPair row.1 host) (Std.ExtTreeSet.ofList row.2))).2

theorem fillAmid_cons_of_epoch_eq {row : String × List String}
    (h : (t.run (others row.1)).cache.epoch = epoch) :
    t.fillAmid epoch host others (row :: rows) entries =
      (t.afterRow host others row).fillAmid epoch host others rows (entries + 1) := by
  simp [fillAmid, Cache.insertAt, h, afterRow, perform]

theorem fillAmid_cons_of_epoch_ne {row : String × List String}
    (h : (t.run (others row.1)).cache.epoch ≠ epoch) :
    t.fillAmid epoch host others (row :: rows) entries = (.discarded, t.run (others row.1)) := by
  simp [fillAmid, Cache.insertAt, h]

/-- While others do nothing, a listing is written at once. -/
theorem fillAmid_of_nothing (h : ∀ component, others component = []) :
    t.fillAmid epoch host others rows entries =
      ((t.cache.fill epoch t.now host rows entries).1,
        { t with cache := (t.cache.fill epoch t.now host rows entries).2 }) := by
  induction rows generalizing t entries with
  | nil => rfl
  | cons row rows ih =>
    have hrun : t.run (others row.1) = t := by
      rw [h]
      rfl
    by_cases he : t.cache.epoch = epoch
    · rw [fillAmid_cons_of_epoch_eq (by rwa [hrun]), Cache.fill_cons_of_epoch_eq he, ih, afterRow, hrun]
      rfl
    · rw [fillAmid_cons_of_epoch_ne (by rwa [hrun]), Cache.fill_of_epoch_ne he (List.cons_ne_nil _ _), hrun]

theorem epoch_afterRow (row : String × List String) (h : clears (others row.1) = 0) :
    (t.afterRow host others row).cache.epoch = t.cache.epoch := by
  rw [afterRow, epoch_perform, epoch_run_of_no_clear t h]
  simp [Command.isClear]

theorem now_afterRow (row : String × List String) :
    (t.afterRow host others row).now = t.now + elapsed (others row.1) := by
  rw [afterRow, now_perform, now_run]
  rfl

/-- What nobody touches stays while a listing is written. -/
theorem getElem?_fillAmid {k : Key} (hothers : ∀ c ∈ meanwhile others rows, ¬c.touches k)
    (hrows : ∀ row ∈ rows, Key.ofPair row.1 host ≠ k) :
    (t.fillAmid epoch host others rows entries).2.cache.entries[k]? = t.cache.entries[k]? := by
  induction rows generalizing t entries with
  | nil => rfl
  | cons row rows ih =>
    rw [meanwhile_cons, List.forall_mem_append] at hothers
    rw [List.forall_mem_cons] at hrows
    have hrun : (t.run (others row.1)).cache.entries[k]? = t.cache.entries[k]? := getElem?_run hothers.1
    by_cases he : (t.run (others row.1)).cache.epoch = epoch
    · rw [fillAmid_cons_of_epoch_eq he, ih hothers.2 hrows.2, afterRow, getElem?_perform, hrun]
      simpa [Command.touches] using hrows.1
    · rw [fillAmid_cons_of_epoch_ne he, hrun]

/-- In an epoch that lasts, every row is written. -/
theorem fillAmid_fst (he : t.cache.epoch = epoch) (hclears : clears (meanwhile others rows) = 0) :
    (t.fillAmid epoch host others rows entries).1 = .stored (entries + rows.length) := by
  induction rows generalizing t entries with
  | nil => rfl
  | cons row rows ih =>
    rw [meanwhile_cons, clears_append, Nat.add_eq_zero_iff] at hclears
    have hrun : (t.run (others row.1)).cache.epoch = epoch := (epoch_run_of_no_clear t hclears.1).trans he
    rw [fillAmid_cons_of_epoch_eq hrun, ih _ hclears.2, List.length_cons]
    · congr 1
      omega
    · rw [epoch_afterRow row hclears.1, he]

/-- In an epoch that lasts, the entry of a row is there after the last row, unless others touched it. -/
theorem getElem?_fillAmid_of_row {component : String} {names : List String}
    {before after : List (String × List String)} (hd : (rows.map Prod.fst).Nodup)
    (he : t.cache.epoch = epoch) (hclears : clears (meanwhile others rows) = 0)
    (hrows : rows = before ++ (component, names) :: after)
    (hothers : ∀ c ∈ meanwhile others after, ¬c.touches (.ofPair component host)) :
    (t.fillAmid epoch host others rows entries).2.cache.entries[Key.ofPair component host]? =
      some ⟨Std.ExtTreeSet.ofList names,
        t.now + elapsed (meanwhile others (before ++ [(component, names)]))⟩ := by
  subst hrows
  induction before generalizing t entries with
  | nil =>
    rw [List.nil_append, meanwhile_cons, clears_append, Nat.add_eq_zero_iff] at hclears
    rw [List.nil_append, List.map_cons, List.nodup_cons] at hd
    have hrun : (t.run (others component)).cache.epoch = epoch :=
      (epoch_run_of_no_clear t hclears.1).trans he
    have hlater : ∀ row ∈ after, Key.ofPair row.1 host ≠ Key.ofPair component host :=
      fun _ hrow => Cache.ofPair_ne_of_not_listed hd.1 hrow
    rw [List.nil_append, fillAmid_cons_of_epoch_eq hrun, getElem?_fillAmid hothers hlater, afterRow]
    simp [perform, Cache.getElem?_insert, now_run, meanwhile]
  | cons row before ih =>
    rw [List.cons_append, meanwhile_cons, clears_append, Nat.add_eq_zero_iff] at hclears
    rw [List.cons_append, List.map_cons, List.nodup_cons] at hd
    have hrun : (t.run (others row.1)).cache.epoch = epoch := (epoch_run_of_no_clear t hclears.1).trans he
    rw [List.cons_append, fillAmid_cons_of_epoch_eq hrun, ih _ hd.2 hclears.2, now_afterRow,
      List.cons_append, meanwhile_cons, elapsed_append, Nat.add_assoc]
    rw [epoch_afterRow row hclears.1, he]

/-- A clearing before some row leaves nothing of the rows before it, and the row is refused. -/
theorem fillAmid_of_clears {s : Timeline NameSet} (h : InStep s t) (he : t.cache.epoch = epoch)
    (hclears : clears (meanwhile others rows) ≠ 0)
    (hfew : clears (meanwhile others rows) < UInt64.size) :
    ∃ before after, rows = before ++ after ∧ clears (meanwhile others before) ≠ 0 ∧
      t.fillAmid epoch host others rows entries = (.discarded, s.run (meanwhile others before)) := by
  induction rows generalizing s t entries with
  | nil => exact absurd rfl hclears
  | cons row rows ih =>
    rw [meanwhile_cons, clears_append] at hclears hfew
    have hrun : (t.run (others row.1)).cache.epoch = epoch ↔ clears (others row.1) = 0 := by
      rw [← he]
      apply epoch_run_iff
      omega
    by_cases hc : clears (others row.1) = 0
    · have hnext : InStep (s.run (others row.1)) (t.afterRow host others row) := by
        obtain ⟨hnow, hlifetime, hepoch⟩ := h.run (others row.1)
        exact ⟨hnow, hlifetime, hepoch⟩
      obtain ⟨before, after, rfl, hbefore, hfill⟩ :=
        ih hnext ((epoch_afterRow row hc).trans he) (by omega) (by omega)
      refine ⟨row :: before, after, rfl, ?_, ?_⟩
      · rw [meanwhile_cons, clears_append]
        omega
      · rw [fillAmid_cons_of_epoch_eq (hrun.2 hc), hfill, meanwhile_cons, run_append]
    · refine ⟨[row], rows, rfl, ?_, ?_⟩
      · rw [meanwhile_cons, clears_append]
        omega
      · rw [fillAmid_cons_of_epoch_ne (fun e => hc (hrun.1 e)), meanwhile_cons, run_append, h.run_eq hc]
        rfl

end Fill

/-- A listing is written in the epoch that was noted, and others do whatever they like from then on until its
last row is written; if they do nothing, it is written at once. If nothing was cleared meanwhile, all rows
are counted as stored, and each entry is there, unless others touched it afterwards. If something was
cleared meanwhile, and not so often that an epoch comes again, the listing is discarded, and the cache is
what others alone would have made of it by then: nothing that was written of the listing is left. -/
theorem fillAmid_all_or_nothing (t : Timeline NameSet) (host : String) (listing : Listing)
    (others : String → List (Command NameSet))
    (hfew : clears (meanwhile others listing.rows) < UInt64.size) :
    let filled := t.fillAmid t.cache.epoch host others listing.rows 0
    let written := t.cache.fill t.cache.epoch t.now host listing.rows 0
    ((∀ component, others component = []) → filled = (written.1, { t with cache := written.2 })) ∧
    (clears (meanwhile others listing.rows) = 0 →
      filled.1 = .stored listing.rows.length ∧
      ∀ before component names after, listing.rows = before ++ (component, names) :: after →
        (∀ c ∈ meanwhile others after, ¬c.touches (.ofPair component host)) →
        filled.2.cache.entries[Key.ofPair component host]? = some ⟨.ofList names,
          t.now + elapsed (meanwhile others (before ++ [(component, names)]))⟩) ∧
    (clears (meanwhile others listing.rows) ≠ 0 →
      filled.1 = .discarded ∧
      ∃ before after, listing.rows = before ++ after ∧ clears (meanwhile others before) ≠ 0 ∧
        filled.2 = t.run (meanwhile others before)) := by
  intro filled written
  refine ⟨fillAmid_of_nothing, fun hclears => ⟨?_, ?_⟩, fun hclears => ?_⟩
  · have hstored : filled.1 = .stored (0 + listing.rows.length) := fillAmid_fst rfl hclears
    rwa [Nat.zero_add] at hstored
  · intro before component names after hrows hothers
    apply getElem?_fillAmid_of_row listing.distinct rfl hclears hrows hothers
  · have hfill : ∃ before after, listing.rows = before ++ after ∧ clears (meanwhile others before) ≠ 0 ∧
        filled = (.discarded, t.run (meanwhile others before)) :=
      fillAmid_of_clears (.refl t) rfl hclears hfew
    obtain ⟨before, after, hrows, hbefore, hfilled⟩ := hfill
    rw [hfilled]
    exact ⟨rfl, before, after, hrows, hbefore, rfl⟩

/-- The cache is cleared after the first of two rows. -/
theorem fillAmid_all_or_nothing_of_half :
    let t : Timeline NameSet := fresh 1000
    let listing := Listing.ofRows [("agent", ["a.log"]), ("server", ["s.log", "s.log.1"])]
    let others : String → List (Command NameSet) := fun component =>
      if component = "server" then [.advance 5, .clear] else []
    let filled := t.fillAmid t.cache.epoch "h1" others listing.rows 0
    clears (meanwhile others listing.rows) < UInt64.size ∧
      clears (meanwhile others listing.rows) ≠ 0 ∧ filled.1 = .discarded ∧
      ∃ before after, listing.rows = before ++ after ∧ clears (meanwhile others before) ≠ 0 ∧
        filled.2 = t.run (meanwhile others before) :=
  ⟨by decide, by decide, (fillAmid_all_or_nothing (fresh 1000) "h1" _ _ (by decide)).2.2 (by decide)⟩

end LogCatalog.Timeline
