import LogCatalog.Proofs.Cache.Archive

/-!
# The last writes of a history

What an archive has recorded under a key is the last write to the key that was accepted and not cleared
since. So the replies of a cache on a clock are those that the history of commands calls for, and the
commands that only look, or drop what is stale, leave no trace in them.
-/
namespace LogCatalog

namespace Timeline

variable {α : Type}

def Command.duration : Command α → Nat
  | .advance time => time
  | _ => 0

def Command.isClear : Command α → Bool
  | .clear => true
  | _ => false

/-- What a command writes in an epoch, if it writes. -/
def Command.written? (epoch : UInt64) : Command α → Option (Key × α)
  | .insert k value => some (k, value)
  | .insertAt noted k value => if epoch = noted then some (k, value) else none
  | _ => none

/-- Whether a command can change a later reply. -/
def Command.isLasting : Command α → Bool
  | .get _ | .contains _ | .dropStale | .lifetime => false
  | .insert _ _ | .insertAt _ _ _ | .clear | .advance _ => true

def elapsed (commands : List (Command α)) : Nat := commands.foldl (fun time c => time + c.duration) 0

def clears (commands : List (Command α)) : Nat := commands.countP Command.isClear

/-- The entry is that of the last accepted write to the key since the last time everything was cleared. As
nothing is cleared after it, later writes are accepted in the same epoch. -/
def LastWrite (commands : List (Command α)) (k : Key) (e : Entry α) : Prop :=
  ∃ before c after, commands = before ++ c :: after ∧
    c.written? (.ofNat (clears before)) = some (k, e.value) ∧ e.writtenAt = elapsed before ∧
    ∀ d ∈ after, ¬d.isClear ∧ ∀ value, d.written? (.ofNat (clears before)) ≠ some (k, value)

variable {commands : List (Command α)} {c : Command α} {k : Key} {e : Entry α}

theorem elapsed_concat (commands : List (Command α)) (c : Command α) :
    elapsed (commands ++ [c]) = elapsed commands + c.duration :=
  List.foldl_concat ..

theorem clears_append (before after : List (Command α)) :
    clears (before ++ after) = clears before + clears after :=
  List.countP_append

theorem not_isClear_of_written? {epoch : UInt64} {x : Key × α} (h : c.written? epoch = some x) :
    ¬c.isClear := by
  cases c <;> simp_all [Command.written?, Command.isClear]

/-- The epoch of a write lasts until something is cleared. -/
theorem clears_append_write {before after : List (Command α)} {epoch : UInt64} {x : Key × α}
    (h : c.written? epoch = some x) (hlater : ∀ d ∈ after, ¬d.isClear) :
    clears (before ++ c :: after) = clears before := by
  rw [clears_append, Nat.add_eq_left, clears, List.countP_eq_zero, List.forall_mem_cons]
  exact ⟨not_isClear_of_written? h, hlater⟩

theorem not_lastWrite_nil : ¬LastWrite ([] : List (Command α)) k e := by
  rintro ⟨before, c, after, h, -⟩
  simp at h

/-- The last command wrote the entry, or the entry was there before and the command left it. -/
theorem lastWrite_concat :
    LastWrite (commands ++ [c]) k e ↔
      c.written? (.ofNat (clears commands)) = some (k, e.value) ∧ e.writtenAt = elapsed commands ∨
      LastWrite commands k e ∧ ¬c.isClear ∧
        ∀ value, c.written? (.ofNat (clears commands)) ≠ some (k, value) := by
  constructor
  · rintro ⟨before, d, after, h, hwritten, htime, hlater⟩
    rcases List.eq_nil_or_concat after with rfl | ⟨after, b, rfl⟩
    · obtain ⟨rfl, hd⟩ := List.append_inj' h rfl
      cases hd
      exact .inl ⟨hwritten, htime⟩
    · rw [List.concat_eq_append, ← List.cons_append, ← List.append_assoc] at h
      obtain ⟨rfl, hb⟩ := List.append_inj' h rfl
      cases hb
      rw [List.concat_eq_append] at hlater
      have hbefore (x : Command α) (hx : x ∈ after) := hlater x (List.mem_append_left _ hx)
      have hlast := hlater c (List.mem_append_right _ (List.mem_singleton_self c))
      rw [clears_append_write hwritten fun x hx => (hbefore x hx).1]
      exact .inr ⟨⟨before, d, after, rfl, hwritten, htime, hbefore⟩, hlast⟩
  · rintro (⟨hwritten, htime⟩ | ⟨⟨before, d, after, rfl, hwritten, htime, hlater⟩, hclear, hc⟩)
    · exact ⟨commands, c, [], rfl, hwritten, htime, fun _ h => nomatch h⟩
    · rw [clears_append_write hwritten fun x hx => (hlater x hx).1] at hc
      refine ⟨before, d, after ++ [c], by simp, hwritten, htime, ?_⟩
      intro x hx
      rcases List.mem_append.1 hx with hx | hx
      · exact hlater x hx
      · obtain rfl := List.mem_singleton.1 hx
        exact ⟨hclear, hc⟩

end Timeline

namespace Archive

open Timeline (Command LastWrite elapsed clears)

variable {α : Type} {commands : List (Command α)} {c : Command α} {k : Key} {e : Entry α}

theorem obeyAll_concat (a : Archive α) (commands : List (Command α)) (c : Command α) :
    a.obeyAll (commands ++ [c]) = (a.obeyAll commands).obey c :=
  List.foldl_concat ..

theorem now_obey (a : Archive α) (c : Command α) : (a.obey c).now = a.now + c.duration := by
  cases c with
  | insertAt =>
    rw [obey]
    split <;> rfl
  | _ => rfl

theorem cleared_obey (a : Archive α) (c : Command α) :
    (a.obey c).cleared = a.cleared + clears [c] := by
  cases c with
  | insertAt =>
    rw [obey]
    split <;> rfl
  | _ => rfl

theorem record_write_eq_some_iff {a : Archive α} {j : Key} {value : α} :
    (a.write j value).record k = some e ↔
      (j, value) = (k, e.value) ∧ e.writtenAt = a.now ∨ a.record k = some e ∧ j ≠ k := by
  obtain ⟨v, time⟩ := e
  by_cases hj : j = k
  · subst hj
    simp [write, eq_comm]
  · simp [write, Function.update_of_ne (Ne.symm hj), hj]

theorem record_obey_eq_some_iff {a : Archive α} :
    (a.obey c).record k = some e ↔
      c.written? a.epoch = some (k, e.value) ∧ e.writtenAt = a.now ∨
      a.record k = some e ∧ ¬c.isClear ∧ ∀ value, c.written? a.epoch ≠ some (k, value) := by
  cases c with
  | insert j value =>
    rw [obey, record_write_eq_some_iff]
    simp [Command.written?, Command.isClear]
  | insertAt noted j value =>
    by_cases hnoted : a.epoch = noted
    · rw [obey, if_pos hnoted, record_write_eq_some_iff]
      simp [Command.written?, Command.isClear, hnoted]
    · simp [obey, Command.written?, Command.isClear, hnoted]
  | _ => simp [obey, Command.written?, Command.isClear]

/-- After any commands the archive has recorded the last writes. -/
theorem obeyAll_spec (commands : List (Command α)) :
    let a := ({} : Archive α).obeyAll commands
    a.now = elapsed commands ∧ a.cleared = clears commands ∧
      ∀ k e, a.record k = some e ↔ LastWrite commands k e := by
  induction commands using List.reverseRecOn with
  | nil =>
    exact ⟨rfl, rfl, fun k e => iff_of_false (Option.some_ne_none e).symm Timeline.not_lastWrite_nil⟩
  | append_singleton commands c ih =>
    obtain ⟨hnow, hclears, hrecord⟩ := ih
    rw [obeyAll_concat]
    refine ⟨?_, ?_, fun k e => ?_⟩
    · rw [now_obey, hnow, Timeline.elapsed_concat]
    · rw [cleared_obey, hclears, Timeline.clears_append]
    · rw [record_obey_eq_some_iff, Timeline.lastWrite_concat, hrecord, hnow, epoch, hclears]

/-- Commands that only look, or drop what is stale, are nothing to an archive. -/
theorem obeyAll_filter (a : Archive α) (commands : List (Command α)) :
    a.obeyAll (commands.filter Command.isLasting) = a.obeyAll commands := by
  rw [obeyAll, List.foldl_filter, obeyAll]
  congr 1
  funext a c
  cases c <;> rfl

end Archive

namespace Timeline

variable {α : Type} (lifetime : Nat) (commands before after : List (Command α))

theorem follows_run : Follows ((fresh lifetime).run commands) lifetime (({} : Archive α).obeyAll commands) :=
  (follows_fresh lifetime).run commands

theorem epoch_run : ((fresh lifetime).run commands).cache.epoch = .ofNat (clears commands) := by
  rw [(follows_run lifetime commands).epoch, Archive.epoch, (Archive.obeyAll_spec commands).2.1]

theorem ofNat_eq_iff {n : Nat} {epoch : UInt64} :
    UInt64.ofNat n = epoch ↔ epoch.toNat = n % UInt64.size := by
  rw [← UInt64.toNat_inj, UInt64.toNat_ofNat', eq_comm]

/-- An epoch comes again only after as many clearings as there are epochs. -/
theorem epoch_append_iff (h : clears after < UInt64.size) :
    UInt64.ofNat (clears (before ++ after)) = .ofNat (clears before) ↔ ∀ d ∈ after, ¬d.isClear := by
  have hmod : clears before % UInt64.size = (clears before + clears after) % UInt64.size ↔
      clears after = 0 := by
    simp only [UInt64.size] at *
    omega
  rw [ofNat_eq_iff, clears_append, UInt64.toNat_ofNat', hmod]
  exact List.countP_eq_zero

/-- The replies of a cache with any lifetime after any commands. A lookup finds what the last accepted write
to the key since the last clearing wrote, for less than the lifetime after it. A write with an epoch is
accepted exactly if the epoch is the number of clearings so far in 64 bits, and changes nothing otherwise. So
an epoch that was noted earlier is accepted exactly if nothing was cleared since, as long as that was done
fewer times than there are epochs. Commands that only look or drop what is stale can be put in or left out
anywhere: every other reply stays the same. Dropping what is stale counts what it drops and leaves exactly
the fresh entries. The size counts every key that has an entry once. Each of these entries is that of the last
write to its key, and the last write to a key is among them as long as it is fresh. -/
theorem answers_last_writes (lifetime : Nat) (commands : List (Command α)) :
    let t₀ : Timeline α := fresh lifetime
    let t := t₀.run commands
    (∀ k, ∃ found, (t.perform (.get k)).1 = .value found ∧
      (t.perform (.contains k)).1 = .flag found.isSome ∧
      ∀ value, found = some value ↔
        ∃ time, LastWrite commands k ⟨value, time⟩ ∧ elapsed commands - time < lifetime) ∧
    (∀ epoch k value, ∃ accepted, (t.perform (.insertAt epoch k value)).1 = .flag accepted ∧
      (accepted = true ↔ epoch.toNat = clears commands % UInt64.size) ∧
      (accepted = false → (t.perform (.insertAt epoch k value)).2 = t)) ∧
    (∀ before after k value, commands = before ++ after → clears after < UInt64.size →
      ((t.perform (.insertAt (t₀.run before).cache.epoch k value)).1 = .flag true ↔
        ∀ d ∈ after, ¬d.isClear)) ∧
    (∀ others, others.filter Command.isLasting = commands.filter Command.isLasting →
      ∀ c ≠ .dropStale, ((t₀.run others).perform c).1 = (t.perform c).1) ∧
    (∃ dropped, (t.perform .dropStale).1 = .number dropped ∧
      dropped + (t.perform .dropStale).2.cache.size = t.cache.size ∧
      ∀ (k : Key) (e : Entry α), (t.perform .dropStale).2.cache.entries[k]? = some e ↔
        t.cache.entries[k]? = some e ∧ elapsed commands - e.writtenAt < lifetime) ∧
    (∃ keys : Finset Key, t.cache.size = keys.card ∧
      ∀ k, k ∈ keys ↔ ∃ e, t.cache.entries[k]? = some e) ∧
    (∀ (k : Key) (e : Entry α), t.cache.entries[k]? = some e → LastWrite commands k e) ∧
    (∀ (k : Key) (e : Entry α), LastWrite commands k e → elapsed commands - e.writtenAt < lifetime →
      t.cache.entries[k]? = some e) := by
  intro t₀ t
  have h : Follows t lifetime (({} : Archive α).obeyAll commands) := (follows_fresh lifetime).run commands
  obtain ⟨hnow, hcleared, hrecord⟩ := Archive.obeyAll_spec commands
  -- Every reply is read off the archive, and what is held off the entries that the cache shows of it.
  refine ⟨?_, ?_, ?_, ?_, ?_, ?_, ?_, ?_⟩
  · intro k
    refine ⟨_, h.reply rfl, h.reply rfl, fun value => ?_⟩
    simp only [Cache.freshValue_eq_some_iff, hnow, hrecord]
  · intro epoch k value
    refine ⟨_, h.reply rfl, ?_, fun hrefused => ?_⟩
    · rw [decide_eq_true_iff, Archive.epoch, hcleared, ofNat_eq_iff]
    · rw [decide_eq_false_iff_not, ← h.epoch] at hrefused
      rw [perform_insertAt, if_neg hrefused]
  · rintro before after k value rfl hfew
    rw [perform_insertAt, epoch_run, epoch_run, ← epoch_append_iff before after hfew]
    split <;> simp [*]
  · intro others hothers c hc
    have hsame : ({} : Archive α).obeyAll others = ({} : Archive α).obeyAll commands := by
      rw [← Archive.obeyAll_filter, hothers, Archive.obeyAll_filter]
    have hfollows := follows_run lifetime others
    rw [hsame] at hfollows
    obtain ⟨r, hr⟩ := (({} : Archive α).obeyAll commands).exists_reply lifetime hc
    rw [hfollows.reply hr, h.reply hr]
  · refine ⟨_, rfl, t.cache.size_dropStale t.now, fun k e => ?_⟩
    have hkept : (t.perform .dropStale).2.cache.entries[k]? =
        t.cache.entries[k]?.filter (·.isFreshAt t.cache.lifetime t.now) :=
      Cache.getElem?_dropStale t.cache t.now k
    rw [hkept, Option.filter_eq_some_iff, Entry.isFreshAt_iff, h.lifetime, h.now, hnow]
  · exact t.cache.exists_size_eq_card
  · intro k e hheld
    exact (hrecord k e).1 (h.shows.recorded k e hheld)
  · intro k e hlast hfresh
    refine h.shows.fresh k e ((hrecord k e).2 hlast) ?_
    rwa [Entry.isFreshAt_iff, h.lifetime, h.now, hnow]

end Timeline

end LogCatalog
