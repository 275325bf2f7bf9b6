import LogCatalog.Proofs.Remote.Contact
import LogCatalog.Proofs.Workspace.Finish

/-!
# The course of a fetch

A fetch acts when it begins and whenever its call is looked at, each time in a workspace that others may
have changed meanwhile. Only the act that ends it does more than to wait, and that act is decided by what
is found there: the controller and the cluster at the beginning, the reply, the clock and the epoch of the
cache at the end. It changes the entries that the reply lists, the counts of the fetch and the marker of
its key, and nothing else that fetches share.
-/
namespace LogCatalog

/-- The reply that a wait is for. -/
def Wait.reply : Wait → Reply
  | .gate _ _ reply => reply
  | .timer _ reply => reply
  | .silence => .silence

def Call.reply (c : Call) : Reply := c.wait.reply

/-- The rows that a call brought. -/
def Ending.rows (e : Ending) : List (String × List String) := (e.answer?.map Answer.rows).getD []

/-- How a call ends by its reply, which may never come. -/
def Reply.ending? : Reply → Option Ending
  | .answer a => some (.answered a)
  | .panic => some .panicked
  | .silence => none

namespace Call

variable {c next : Call} {remote : Remote} {now turn : Nat} {e : Ending}

/-- Whether there is nothing left to wait for. -/
def isReady (c : Call) (remote : Remote) (now : Nat) : Bool :=
  match c.wait with
  | .gate name delay _ => remote.isOpen name && delay == 0
  | .timer due _ => due ≤ now
  | .silence => false

/-- How the call ends by itself when it is looked at. -/
def ending? (c : Call) (remote : Remote) (now : Nat) : Option Ending :=
  if c.isReady remote now then c.reply.ending? else none

theorem ending?_eq_some_iff :
    c.ending? remote now = some e ↔ c.isReady remote now ∧ c.reply.ending? = some e := by
  unfold ending?
  split <;> simp [*]

/-- What a look at a call shows: its own end, or that it is past its deadline, or that it goes on. -/
inductive Polled (c : Call) (remote : Remote) (now : Nat) : Progress → Prop where
  | ends {e : Ending} (ends : c.ending? remote now = some e) : Polled c remote now (.ended e)
  | timesOut (unended : c.ending? remote now = none) (late : c.deadline ≤ now) :
      Polled c remote now (.ended .timedOut)
  | waits {next : Call} (unended : c.ending? remote now = none) (early : now < c.deadline)
      (deadline : next.deadline = c.deadline) (reply : next.reply = c.reply) :
      Polled c remote now (.waiting next)

theorem Polled.congr {c' : Call} {p : Progress} (h : Polled c remote now p)
    (hend : c.ending? remote now = c'.ending? remote now) (hd : c.deadline = c'.deadline)
    (hr : c.reply = c'.reply) : Polled c' remote now p := by
  cases h with
  | ends ends => exact .ends (hend ▸ ends)
  | timesOut unended late => exact .timesOut (hend ▸ unended) (hd ▸ late)
  | waits unended early deadline reply =>
    exact .waits (hend ▸ unended) (hd ▸ early) (deadline.trans hd) (reply.trans hr)

theorem polled_orTimedOut (h : c.ending? remote now = none) (hd : next.deadline = c.deadline)
    (hr : next.reply = c.reply) : Polled c remote now (next.orTimedOut now) := by
  unfold orTimedOut
  by_cases hlate : next.deadline ≤ now
  · rw [if_pos hlate]
    exact .timesOut h (hd ▸ hlate)
  · rw [if_neg hlate]
    exact .waits h (hd ▸ Nat.not_le.1 hlate) hd hr

theorem polled_timer (deadline begun due since turn : Nat) (reply : Reply) :
    Polled ⟨deadline, begun, .timer due reply, since⟩ remote now
      (poll ⟨deadline, begun, .timer due reply, since⟩ remote now turn) := by
  by_cases hdue : due ≤ now
  · cases reply with
    | answer a =>
      simp only [poll, passGate, if_pos hdue]
      exact .ends (by simp [ending?, isReady, hdue, Call.reply, Wait.reply, Reply.ending?])
    | panic =>
      simp only [poll, passGate, if_pos hdue]
      exact .ends (by simp [ending?, isReady, hdue, Call.reply, Wait.reply, Reply.ending?])
    | silence =>
      simp only [poll, passGate, if_pos hdue]
      exact polled_orTimedOut (by simp [ending?, Call.reply, Wait.reply, Reply.ending?]) rfl rfl
  · simp only [poll, passGate, if_neg hdue]
    exact polled_orTimedOut (by simp [ending?, isReady, hdue]) rfl rfl

/-- An open gate is passed in the same look, and the call goes on as one that waits on the clock. -/
theorem poll_of_open {name : String} (h : remote.isOpen name) (deadline begun delay since : Nat)
    (reply : Reply) :
    poll ⟨deadline, begun, .gate name delay reply, since⟩ remote now turn =
      poll ⟨deadline, begun, .timer (now + delay) reply, turn⟩ remote now turn := by
  simp [poll, passGate, h]

theorem polled_poll (c : Call) (remote : Remote) (now turn : Nat) :
    Polled c remote now (c.poll remote now turn) := by
  obtain ⟨deadline, begun, wait, since⟩ := c
  cases wait with
  | gate name delay reply =>
    by_cases hopen : remote.isOpen name
    · have htimer : Polled ⟨deadline, begun, .timer (now + delay) reply, turn⟩ remote now _ :=
        polled_timer deadline begun (now + delay) turn turn reply
      have hend : ending? ⟨deadline, begun, .timer (now + delay) reply, turn⟩ remote now =
          ending? ⟨deadline, begun, .gate name delay reply, since⟩ remote now := by
        cases delay <;> simp [ending?, isReady, hopen, Call.reply, Wait.reply]
      rw [poll_of_open hopen]
      exact htimer.congr hend rfl rfl
    · have hend : ending? ⟨deadline, begun, .gate name delay reply, since⟩ remote now = none := by
        simp [ending?, isReady, hopen]
      simpa [poll, passGate, hopen] using polled_orTimedOut hend rfl rfl
  | timer due reply => exact polled_timer deadline begun due since turn reply
  | silence => exact polled_orTimedOut rfl rfl rfl

end Call

namespace Workspace

/-- The outcome of a fetch whose call has ended, in an epoch of the cache. -/
def outcomeAt? (f : Fetch) (epoch : UInt64) : Ending → Option Outcome
  | .answered (.files listing) =>
    if listing.rows = [] then some .empty
    else if epoch = f.epoch then some (.stored listing.rows.length)
    else some .discarded
  | .answered .nothing => some .empty
  | .answered (.failed _) => some .failed
  | .timedOut => some .timedOut
  | .panicked => none

theorem finish_fst (w : Workspace) (f : Fetch) (e : Ending) :
    (w.finish f e).1 = outcomeAt? f w.names.epoch e := by
  cases e with
  | answered a =>
    cases a with
    | files listing =>
      by_cases hr : listing.rows = []
      · rw [finish_files_of_no_rows w f hr, outcomeAt?, if_pos hr]
      · rw [finish_files w f hr, outcomeAt?, if_neg hr]
        by_cases he : w.names.epoch = f.epoch
        · rw [if_pos he]
          have hfill : (w.names.fill f.epoch w.now f.request.host listing.rows 0).1 =
              .stored (0 + listing.rows.length) := Cache.fill_fst he
          rw [Nat.zero_add] at hfill
          exact congrArg some hfill
        · rw [if_neg he]
          exact congrArg (some ·.1) (Cache.fill_of_epoch_ne he hr)
    | nothing => rfl
    | failed error => rfl
  | timedOut => rfl
  | panicked => rfl

/-- The outcomes that count as failures. -/
def failing : List (Option Outcome) := [some .empty, some .failed, some .timedOut]

/-- What the last act of a fetch changes, given its outcome and the rows that it brought. Nobody else's
entry, count or marker is touched. A failure count at its limit stays there. -/
structure Effect (f : Fetch) (rows : List (String × List String)) (o : Option Outcome)
    (w w' : Workspace) : Prop where
  listed : ∀ n, o = some (.stored n) → n = rows.length ∧ ∀ component names,
    rows.lookup component = some names →
      w'.names.entries[Key.ofPair component f.request.host]? = some ⟨.ofList names, w.now⟩
  unlisted : ∀ k, (∀ component names, rows.lookup component = some names →
    Key.ofPair component f.request.host ≠ k) → w'.names.entries[k]? = w.names.entries[k]?
  unstored : (∀ n, o ≠ some (.stored n)) → w'.names = w.names
  cache : w'.names.lifetime = w.names.lifetime ∧ w'.names.epoch = w.names.epoch
  failures : ∀ component, w'.registry.failuresOf component =
    if o ∈ failing ∧ component = f.request.component then
      min (w.registry.failuresOf component + 1) Registry.maxFailures
    else w.registry.failuresOf component
  marks : ∀ k, w'.registry.isMarked k ↔ k ≠ f.key ∧ w.registry.isMarked k
  counters : ∀ t, w'.counters.get t =
    if t = .failed ∧ o ∈ failing ∨ t = .completed ∧ o ≠ none then w.counters.get t + 1
    else w.counters.get t
  frame : w' = { w with
    remote := w'.remote
    names := w'.names
    registry := w'.registry
    counters := w'.counters
    log := w'.log }

theorem mem_failing_iff {x : Exit} : x.outcome ∈ failing ↔ x.isFailure := by
  simp [failing, Exit.isFailure_iff]

theorem get_tally (x : Exit) (c : Counters) (t : Tally) :
    (x.tally c).get t = if t = .failed ∧ x.outcome ∈ failing ∨ t = .completed ∧ x.outcome ≠ none then
      c.get t + 1 else c.get t := by
  simp only [mem_failing_iff, ← Option.isSome_iff_ne_none]
  unfold Exit.tally
  cases x.isFailure <;> cases x.outcome.isSome <;> cases t <;> rfl

theorem listedEntry_eq_none {now : Nat} {host : String} {rows : List (String × List String)} {k : Key}
    (h : ∀ component names, rows.lookup component = some names → Key.ofPair component host ≠ k) :
    Cache.listedEntry now host rows k = none := by
  simp only [Cache.listedEntry, Option.map_eq_none_iff, List.find?_eq_none, decide_eq_true_eq]
  intro row hrow
  have hsome : (rows.lookup row.1).isSome := by
    rw [Option.isSome_iff_ne_none, Ne, List.lookup_eq_none_iff]
    exact fun hne => by simpa using hne row hrow
  obtain ⟨names, hlookup⟩ := Option.isSome_iff_exists.1 hsome
  exact h row.1 names hlookup

/-- An exit has the effect of its fetch, its rows and its outcome. -/
theorem Closed.effect {x : Exit} {w w' : Workspace} (h : Closed x w w')
    (frame : w' = { w with
      remote := w'.remote
      names := w'.names
      registry := w'.registry
      counters := w'.counters
      log := w'.log }) : Effect x.fetch x.rows x.outcome w w' where
  listed n hn := by
    have hr : x.rows ≠ [] := fun e => h.outcome_of_no_rows e n hn
    have ho := Option.some.inj ((h.outcome_of_rows hr).symm.trans hn)
    have hepoch : w.names.epoch = x.fetch.epoch := by
      by_contra hne
      rw [(Exit.store_of_epoch_ne hne).2 hr] at ho
      exact nomatch ho
    have hfst : (x.store w.names).1 = .stored (0 + x.rows.length) := Cache.fill_fst hepoch
    rw [hfst, Outcome.stored.injEq, Nat.zero_add] at ho
    refine ⟨ho.symm, fun component names hlookup => ?_⟩
    rw [h.names, Exit.store, Cache.getElem?_fill hepoch x.nodup_rows, Cache.listedEntry_ofPair, hlookup,
      h.time]
    rfl
  unlisted k hk := by
    rw [h.names]
    by_cases hepoch : w.names.epoch = x.fetch.epoch
    · rw [Exit.store, Cache.getElem?_fill hepoch x.nodup_rows, listedEntry_eq_none hk]
      rfl
    · rw [(Exit.store_of_epoch_ne hepoch).1]
  unstored hn := by
    rw [h.names]
    by_cases hepoch : w.names.epoch = x.fetch.epoch
    · by_cases hr : x.rows = []
      · rw [Exit.store, hr]
        rfl
      · have hfst : (x.store w.names).1 = .stored (0 + x.rows.length) := Cache.fill_fst hepoch
        rw [h.outcome_of_rows hr, hfst] at hn
        exact absurd rfl (hn _)
    · exact (Exit.store_of_epoch_ne hepoch).1
  cache := by
    rw [h.names]
    exact Cache.fill_frame _ _ _ _ _ _
  failures component := by
    rw [h.registry, Exit.failuresOf_settle]
    simp only [mem_failing_iff, @eq_comm _ component]
  marks k := by
    rw [h.registry, Exit.isMarked_settle, ne_comm]
  counters t := by
    rw [h.counters, get_tally]
  frame := frame

theorem close_eq (w : Workspace) (f : Fetch) (o : Outcome) :
    w.close f o = { w with
      names := (w.close f o).names
      registry := (w.close f o).registry
      counters := (w.close f o).counters
      log := (w.close f o).log } := by
  unfold close
  cases o.isFailure <;> rfl

theorem finish_eq (w : Workspace) (f : Fetch) (e : Ending) :
    (w.finish f e).2 = { w with
      names := (w.finish f e).2.names
      registry := (w.finish f e).2.registry
      counters := (w.finish f e).2.counters
      log := (w.finish f e).2.log } := by
  cases e with
  | answered a =>
    cases a with
    | files listing =>
      by_cases hr : listing.rows = []
      · rw [finish_files_of_no_rows w f hr]
        exact w.close_eq f .empty
      · rw [finish_files w f hr]
        generalize w.names.fill f.epoch w.now f.request.host listing.rows 0 = filled
        exact close_eq { w with names := filled.2 } f filled.1
    | nothing => exact w.close_eq f .empty
    | failed error => exact close_eq { w with log := _ } f .failed
  | timedOut => exact close_eq { w with log := _ } f .timedOut
  | panicked => rfl

theorem effect_finish (w : Workspace) (f : Fetch) (e : Ending) :
    Effect f e.rows (outcomeAt? f w.names.epoch e) w (w.finish f e).2 := by
  rw [← finish_fst]
  refine (w.closed_finish f e).effect ?_
  rw [finish_eq]

/-- What is left of a call after it was looked at some times, in any workspaces. -/
inductive Outlasts (f : Fetch) : Call → Call → Prop where
  | refl (c : Call) : Outlasts f c c
  | look {w w' : Workspace} {c next last : Call} (waits : w.look f c = (.inr next, w'))
      (rest : Outlasts f next last) : Outlasts f c last

variable {w w' : Workspace} {f : Fetch} {c next last : Call} {o : Option Outcome}

theorem look_waits (h : w.look f c = (.inr next, w')) :
    next.deadline = c.deadline ∧ next.reply = c.reply ∧ w' = { w with turn := w.turn + 1 } := by
  have hpolled := c.polled_poll w.remote w.now w.turn
  unfold look at h
  cases hp : c.poll w.remote w.now w.turn with
  | waiting d =>
    rw [hp] at h hpolled
    cases h
    cases hpolled with
    | waits unended early deadline reply => exact ⟨deadline, reply, rfl⟩
  | ended e =>
    simp only [hp] at h
    cases h

theorem look_ends (h : w.look f c = (.inl o, w')) :
    ∃ e, (c.ending? w.remote w.now = some e ∨
        c.ending? w.remote w.now = none ∧ c.deadline ≤ w.now ∧ e = .timedOut) ∧
      w.finish f e = (o, w') := by
  have hpolled := c.polled_poll w.remote w.now w.turn
  unfold look at h
  cases hp : c.poll w.remote w.now w.turn with
  | waiting d =>
    simp only [hp] at h
    cases h
  | ended e =>
    rw [hp] at hpolled
    simp only [hp] at h
    cases h
    refine ⟨e, ?_, rfl⟩
    cases hpolled with
    | ends ends => exact .inl ends
    | timesOut unended late => exact .inr ⟨unended, late, rfl⟩

theorem Outlasts.frame (h : Outlasts f c last) : last.deadline = c.deadline ∧ last.reply = c.reply := by
  induction h with
  | refl => exact ⟨rfl, rfl⟩
  | look waits _ ih =>
    obtain ⟨hd, hr, -⟩ := look_waits waits
    exact ⟨ih.1.trans hd, ih.2.trans hr⟩

/-- The last look at a call takes the reply if that is there and else finds it past its deadline. -/
theorem Outlasts.effect (h : Outlasts f c last) (hlook : w.look f last = (.inl o, w')) :
    ∃ e, (last.isReady w.remote w.now ∧ c.reply.ending? = some e ∨
        last.ending? w.remote w.now = none ∧ c.deadline ≤ w.now ∧ e = .timedOut) ∧
      o = outcomeAt? f w.names.epoch e ∧ w'.remote = w.remote ∧ Effect f e.rows o w w' := by
  obtain ⟨hd, hr⟩ := h.frame
  obtain ⟨e, he, hfinish⟩ := look_ends hlook
  have heffect := w.effect_finish f e
  have houtcome : o = outcomeAt? f w.names.epoch e := by rw [← finish_fst, hfinish]
  have hremote : w'.remote = w.remote := by
    have hframe := congrArg Workspace.remote (w.finish_eq f e)
    rwa [hfinish] at hframe
  rw [hfinish, ← houtcome] at heffect
  rw [← hd, ← hr]
  exact ⟨e, he.imp_left Call.ending?_eq_some_iff.1, houtcome, hremote, heffect⟩

end Workspace
end LogCatalog
