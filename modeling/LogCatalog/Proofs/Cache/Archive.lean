import LogCatalog.Cache.Timeline
import LogCatalog.Proofs.Cache.Record

/-!
# Caches and archives

An archive takes the same commands as a cache on a clock, but it keeps what is written until it is cleared,
and never drops anything for its age. A cache follows an archive when it shows the archive's record at the
same time and in the same epoch. Every command keeps this, and every reply but the number of entries
that a sweep drops can be read off the archive. So what a cache drops, and when, is never noticed.
-/
namespace LogCatalog

open Timeline (Command Reply)

variable {α : Type}

structure Archive (α : Type) where
  now : Nat := 0
  cleared : Nat := 0
  record : Record α := fun _ => none

namespace Archive

/-- Epochs are counted in 64 bits. -/
def epoch (a : Archive α) : UInt64 := .ofNat a.cleared

def write (a : Archive α) (k : Key) (value : α) : Archive α :=
  { a with record := Function.update a.record k (some ⟨value, a.now⟩) }

def obey (a : Archive α) : Command α → Archive α
  | .insert k value => a.write k value
  | .insertAt epoch k value => if a.epoch = epoch then a.write k value else a
  | .clear => { a with cleared := a.cleared + 1, record := fun _ => none }
  | .advance time => { a with now := a.now + time }
  | .get _ | .contains _ | .dropStale | .lifetime => a

def obeyAll (a : Archive α) (commands : List (Command α)) : Archive α := commands.foldl obey a

/-- The reply of a cache with this lifetime. That of a sweep depends on what was dropped before. -/
def reply? (a : Archive α) (lifetime : Nat) : Command α → Option (Reply α)
  | .insert _ _ | .clear | .advance _ => some .nothing
  | .insertAt epoch _ _ => some (.flag (a.epoch = epoch))
  | .get k => some (.value (Cache.freshValue a.record lifetime a.now k))
  | .contains k => some (.flag (Cache.freshValue a.record lifetime a.now k).isSome)
  | .dropStale => none
  | .lifetime => some (.number lifetime)

theorem exists_reply {c : Command α} (a : Archive α) (lifetime : Nat) (h : c ≠ .dropStale) :
    ∃ r, a.reply? lifetime c = some r := by
  cases c with
  | dropStale => exact absurd rfl h
  | _ => exact ⟨_, rfl⟩

end Archive

namespace Timeline

/-- The cache before anything was written. -/
def fresh (lifetime : Nat) : Timeline α := { cache := { lifetime } }

def run (t : Timeline α) (commands : List (Command α)) : Timeline α :=
  commands.foldl (fun t c => (t.perform c).2) t

/-- The cache has the lifetime and shows what the archive has recorded. -/
structure Follows (t : Timeline α) (lifetime : Nat) (a : Archive α) : Prop where
  lifetime : t.cache.lifetime = lifetime
  now : t.now = a.now
  epoch : t.cache.epoch = a.epoch
  shows : t.cache.Shows t.now a.record

variable {t : Timeline α} {lifetime : Nat} {a : Archive α}

/-- A write that is refused changes nothing. -/
theorem perform_insertAt (t : Timeline α) (epoch : UInt64) (k : Key) (value : α) :
    t.perform (.insertAt epoch k value) =
      if t.cache.epoch = epoch then (.flag true, { t with cache := t.cache.insert t.now k value })
      else (.flag false, t) := by
  simp only [perform, Cache.insertAt]
  split <;> rfl

theorem follows_fresh (lifetime : Nat) : Follows (fresh lifetime) lifetime ({} : Archive α) :=
  ⟨rfl, rfl, rfl, Cache.shows_nothing⟩

theorem Follows.write (h : Follows t lifetime a) (k : Key) (value : α) :
    Follows { t with cache := t.cache.insert t.now k value } lifetime (a.write k value) where
  lifetime := h.lifetime
  now := h.now
  epoch := h.epoch
  shows := by
    have hrecord : (a.write k value).record =
        fun j => (if k = j then some ⟨value, t.now⟩ else none).or (a.record j) := by
      funext j
      by_cases hj : k = j
      · subst hj
        simp [Archive.write, h.now]
      · simp [Archive.write, hj, Function.update_of_ne (Ne.symm hj)]
    rw [hrecord]
    refine h.shows.written rfl fun j => ?_
    rw [Cache.getElem?_insert]
    split <;> rfl

theorem Follows.clear (h : Follows t lifetime a) :
    Follows { t with cache := t.cache.clear } lifetime (a.obey .clear) where
  lifetime := h.lifetime
  now := h.now
  epoch := by
    have hnext : t.cache.epoch + 1 = (a.obey .clear).epoch := by
      rw [h.epoch, Archive.epoch, Archive.epoch, Archive.obey, UInt64.ofNat_add]
      rfl
    exact hnext
  shows := Cache.shows_nothing

/-- One command. -/
theorem Follows.perform (h : Follows t lifetime a) (c : Command α) :
    Follows (t.perform c).2 lifetime (a.obey c) := by
  cases c with
  | insert k value => exact h.write k value
  | insertAt epoch k value =>
    rw [perform_insertAt, Archive.obey, h.epoch]
    split
    · exact h.write k value
    · exact h
  | get k | contains k =>
    exact ⟨(Cache.get_lifetime ..).trans h.lifetime, h.now, (Cache.get_epoch ..).trans h.epoch,
      h.shows.get k⟩
  | clear => exact h.clear
  | dropStale => exact ⟨h.lifetime, h.now, h.epoch, h.shows.dropStale⟩
  | advance time =>
    exact ⟨h.lifetime, congrArg (· + time) h.now, h.epoch, h.shows.later (Nat.le_add_right _ _)⟩
  | lifetime => exact h

theorem Follows.run (h : Follows t lifetime a) (commands : List (Command α)) :
    Follows (t.run commands) lifetime (a.obeyAll commands) := by
  induction commands generalizing t a with
  | nil => exact h
  | cons c commands ih => exact ih (h.perform c)

theorem Follows.reply (h : Follows t lifetime a) {c : Command α} {r : Reply α}
    (hr : a.reply? lifetime c = some r) : (t.perform c).1 = r := by
  have hfind (k : Key) : (t.cache.get t.now k).1 = Cache.freshValue a.record lifetime a.now k := by
    rw [Cache.get_fst, h.shows.find?_eq, h.lifetime, h.now]
  cases c with
  | insert | clear | advance => exact Option.some_inj.1 hr
  | insertAt epoch k value =>
    obtain rfl := Option.some_inj.1 hr
    rw [perform_insertAt, h.epoch]
    split <;> simp [*]
  | get k =>
    obtain rfl := Option.some_inj.1 hr
    exact congrArg Reply.value (hfind k)
  | contains k =>
    obtain rfl := Option.some_inj.1 hr
    exact congrArg (fun found => Reply.flag found.isSome) (hfind k)
  | dropStale => exact nomatch hr
  | lifetime =>
    obtain rfl := Option.some_inj.1 hr
    exact congrArg Reply.number h.lifetime

end Timeline
end LogCatalog
