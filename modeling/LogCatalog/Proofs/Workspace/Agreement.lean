import LogCatalog.Proofs.Cache.Fresh
import LogCatalog.Proofs.Pool.Step
import LogCatalog.Proofs.Remote.Contact

/-!
# Workspaces that agree

Two workspaces agree if fetches and lookups of file names cannot tell them apart: they share all but what
has gone stale in the cache, what was logged about sweeps and, unless they agree as a `whole`, what
lookups of addresses count. Every act of a fetch and every step of the pool does the same in both.
-/
namespace LogCatalog

/-- Two remote sides that give the same answers and were asked for the same listings, and if they agree
as a `whole` for the same addresses. -/
structure Remote.Agree (whole : Prop) (r r' : Remote) : Prop where
  controller : r.controller = r'.controller
  clusters : r.clusters = r'.clusters
  asked : r.asked = r'.asked
  opened : r.opened = r'.opened
  listings : r.calls.listings = r'.calls.listings
  calls : whole → r.calls = r'.calls

namespace Remote.Agree

variable {whole : Prop} {r r' r'' : Remote}

theorem refl (r : Remote) : r.Agree whole r := ⟨rfl, rfl, rfl, rfl, rfl, fun _ => rfl⟩

theorem symm (h : r.Agree whole r') : r'.Agree whole r where
  controller := h.controller.symm
  clusters := h.clusters.symm
  asked := h.asked.symm
  opened := h.opened.symm
  listings := h.listings.symm
  calls hw := (h.calls hw).symm

theorem trans (h : r.Agree whole r') (h' : r'.Agree whole r'') : r.Agree whole r'' where
  controller := h.controller.trans h'.controller
  clusters := h.clusters.trans h'.clusters
  asked := h.asked.trans h'.asked
  opened := h.opened.trans h'.opened
  listings := h.listings.trans h'.listings
  calls hw := (h.calls hw).trans (h'.calls hw)

theorem contacted (h : r.Agree whole r') : r.contacted.Agree whole r'.contacted := by
  unfold Remote.contacted
  rw [h.controller]
  cases r'.controller.name with
  | none => exact h
  | some active =>
    exact { h with controller := rfl, calls := fun hw => by rw [h.calls hw] }

theorem contact (h : r.Agree whole r') (cluster : String) :
    (r.contact cluster).1 = (r'.contact cluster).1 ∧
      (r.contact cluster).2.Agree whole (r'.contact cluster).2 := by
  rw [contact_snd, contact_snd]
  exact ⟨contact_congr h.controller h.clusters, h.contacted⟩

theorem askListing (h : r.Agree whole r') (cluster : String) (c : Cluster) (host : String) :
    (r.askListing cluster c host).1 = (r'.askListing cluster c host).1 ∧
      (r.askListing cluster c host).2.Agree whole (r'.askListing cluster c host).2 := by
  have hasked : r.askedFor cluster host = r'.askedFor cluster host := by
    rw [askedFor, askedFor, h.asked]
  unfold Remote.askListing
  rw [hasked, h.asked]
  refine ⟨rfl, { h with asked := rfl, listings := ?_, calls := ?_ }⟩
  · exact congrArg (· + 1) h.listings
  · intro hw
    rw [h.calls hw]

theorem addressed (h : r.Agree whole r') (cluster : String) :
    (r.addressed cluster).Agree whole (r'.addressed cluster) := by
  have hreached : r.reached? cluster = r'.reached? cluster := reached?_congr h.controller h.clusters
  unfold Remote.addressed
  rw [hreached]
  cases r'.reached? cluster with
  | none => exact h.contacted
  | some c =>
    refine { h.contacted with calls := fun hw => ?_ }
    rw [h.contacted.calls hw, h.calls hw]

theorem openGate (h : r.Agree whole r') (gate : String) :
    (r.openGate gate).Agree whole (r'.openGate gate) := by
  have hopen : r.isOpen gate = r'.isOpen gate := by rw [isOpen, isOpen, h.opened]
  unfold Remote.openGate
  rw [hopen, h.opened]
  cases r'.isOpen gate with
  | true => exact h
  | false => exact { h with opened := rfl }

theorem install (h : r.Agree whole r') (name : String) :
    (r.install name).1 = (r'.install name).1 ∧
      (r.install name).2.Agree whole (r'.install name).2 := by
  unfold Remote.install
  rw [h.controller]
  exact ⟨rfl, { h with controller := rfl }⟩

end Remote.Agree

/-- What lookups of addresses count. -/
def Tally.ofTails : List Tally := [.tailHit, .tailMiss]

/-- Two sets of counters that agree on all that is not counted for addresses, or as a `whole`. -/
structure Counters.Agree (whole : Prop) (c c' : Counters) : Prop where
  get : ∀ t, t ∉ Tally.ofTails → c.get t = c'.get t
  whole : whole → c = c'

theorem Counters.Agree.record {whole : Prop} {c c' : Counters} (h : c.Agree whole c') (t : Tally) :
    (c.record t).Agree whole (c'.record t) where
  get u hu := by rw [get_record, get_record, h.get u hu]
  whole hw := by rw [h.whole hw]

/-- Whether an event reports what a sweep has dropped. -/
def LogEvent.isPurged : LogEvent → Bool
  | .purged _ => true
  | _ => false

/-- Two workspaces that fetches cannot tell apart. -/
structure Workspace.Agree (whole : Prop) (w w' : Workspace) : Prop where
  now : w.now = w'.now
  turn : w.turn = w'.turn
  issued : w.issued = w'.issued
  remote : w.remote.Agree whole w'.remote
  names : w.names.fresh w.now = w'.names.fresh w.now
  registry : w.registry = w'.registry
  counters : w.counters.Agree whole w'.counters
  timeout : w.timeout = w'.timeout
  log : w.log.filter (!·.isPurged) = w'.log.filter (!·.isPurged)

namespace Workspace.Agree

variable {whole : Prop} {w w' w'' : Workspace}

theorem refl (w : Workspace) : w.Agree whole w where
  now := rfl
  turn := rfl
  issued := rfl
  remote := .refl _
  names := rfl
  registry := rfl
  counters := ⟨fun _ _ => rfl, fun _ => rfl⟩
  timeout := rfl
  log := rfl

theorem symm (h : w.Agree whole w') : w'.Agree whole w where
  now := h.now.symm
  turn := h.turn.symm
  issued := h.issued.symm
  remote := h.remote.symm
  names := h.now ▸ h.names.symm
  registry := h.registry.symm
  counters := ⟨fun t ht => (h.counters.get t ht).symm, fun hw => (h.counters.whole hw).symm⟩
  timeout := h.timeout.symm
  log := h.log.symm

theorem trans (h : w.Agree whole w') (h' : w'.Agree whole w'') : w.Agree whole w'' where
  now := h.now.trans h'.now
  turn := h.turn.trans h'.turn
  issued := h.issued.trans h'.issued
  remote := h.remote.trans h'.remote
  names := h.names.trans (h.now ▸ h'.names)
  registry := h.registry.trans h'.registry
  counters := ⟨fun t ht => (h.counters.get t ht).trans (h'.counters.get t ht),
    fun hw => (h.counters.whole hw).trans (h'.counters.whole hw)⟩
  timeout := h.timeout.trans h'.timeout
  log := h.log.trans h'.log

theorem emit (h : w.Agree whole w') (events : List LogEvent) :
    (w.emit events).Agree whole (w'.emit events) :=
  { h with log := by simp only [Workspace.emit, List.filter_append, h.log] }

theorem count (h : w.Agree whole w') (t : Tally) : (w.count t).Agree whole (w'.count t) :=
  { h with counters := h.counters.record t }

theorem register (h : w.Agree whole w') (registry : Registry) :
    { w with registry }.Agree whole { w' with registry } :=
  { h with registry := rfl }

theorem release (h : w.Agree whole w') (k : Key) : (w.release k).Agree whole (w'.release k) :=
  { h with registry := by simp only [Workspace.release, h.registry] }

theorem call (h : w.Agree whole w') {remote remote' : Remote} (hr : remote.Agree whole remote') :
    { w with remote }.Agree whole { w' with remote := remote' } :=
  { h with remote := hr }

theorem cache (h : w.Agree whole w') {names names' : Cache NameSet}
    (hn : names.fresh w.now = names'.fresh w.now) :
    { w with names }.Agree whole { w' with names := names' } :=
  { h with names := hn }

theorem takeTurn (h : w.Agree whole w') :
    { w with turn := w.turn + 1 }.Agree whole { w' with turn := w'.turn + 1 } :=
  { h with turn := by rw [h.turn] }

theorem issue (h : w.Agree whole w') (r : Request) :
    (w.issue r).1 = (w'.issue r).1 ∧ (w.issue r).2.Agree whole (w'.issue r).2 := by
  unfold Workspace.issue
  rw [h.issued, Cache.epoch_eq h.names]
  exact ⟨rfl, { h with issued := rfl }⟩

theorem close (h : w.Agree whole w') (f : Fetch) (o : Outcome) :
    (w.close f o).Agree whole (w'.close f o) := by
  unfold Workspace.close
  cases o.isFailure with
  | false => exact (h.count _).release _
  | true =>
    simp only [if_true, h.registry]
    exact ((((h.register _).emit _).count _).count _).release _

theorem finish (h : w.Agree whole w') (f : Fetch) (e : Ending) :
    (w.finish f e).1 = (w'.finish f e).1 ∧ (w.finish f e).2.Agree whole (w'.finish f e).2 := by
  cases e with
  | answered a =>
    cases a with
    | files listing =>
      by_cases hr : listing.rows = []
      · rw [finish_files_of_no_rows w f hr, finish_files_of_no_rows w' f hr]
        exact ⟨rfl, h.close f .empty⟩
      · obtain ⟨ho, hn⟩ := Cache.fresh_fill h.names f.epoch f.request.host listing.rows 0
        have hcache := h.cache hn
        rw [← h.now] at hcache
        rw [finish_files w f hr, finish_files w' f hr, ← h.now]
        refine ⟨congrArg some ho, ?_⟩
        simp only [ho]
        exact hcache.close f _
    | nothing => exact ⟨rfl, h.close f .empty⟩
    | failed error => exact ⟨rfl, (h.emit _).close f .failed⟩
  | timedOut =>
    have hw := (h.emit [.fetchTimedOut f.request.host w.timeout]).close f .timedOut
    refine ⟨rfl, ?_⟩
    rw [Workspace.finish, Workspace.finish, Workspace.outcome?, Workspace.outcome?, ← h.timeout]
    exact hw
  | panicked => exact ⟨rfl, h.release f.key⟩

theorem callOf (h : w.Agree whole w') (plan : Plan) : w.callOf plan = w'.callOf plan := by
  simp only [Workspace.callOf, h.now, h.timeout, h.turn]

theorem begin (h : w.Agree whole w') (f : Fetch) :
    (w.begin f).1 = (w'.begin f).1 ∧ (w.begin f).2.Agree whole (w'.begin f).2 := by
  obtain ⟨hc, hr⟩ := h.remote.contact f.request.cluster
  unfold Workspace.begin
  revert hc hr
  obtain ⟨contact, remote⟩ := w.remote.contact f.request.cluster
  obtain ⟨contact', remote'⟩ := w'.remote.contact f.request.cluster
  rintro rfl hr
  cases contact with
  | noController => exact ⟨rfl, (h.call hr).close f _⟩
  | noCluster => exact ⟨rfl, (h.call hr).close f _⟩
  | reached c =>
    obtain ⟨hplan, hasked⟩ := hr.askListing f.request.cluster c f.request.host
    refine ⟨?_, (h.call hasked).takeTurn⟩
    exact congrArg Sum.inr ((h.callOf _).trans (congrArg w'.callOf hplan))

theorem isOpen (h : w.Agree whole w') : w.remote.isOpen = w'.remote.isOpen := by
  funext gate
  rw [Remote.isOpen, Remote.isOpen, h.remote.opened]

theorem isDue (h : w.Agree whole w') (c : Call) : c.isDue w.remote w.now = c.isDue w'.remote w'.now := by
  rw [Call.isDue, Call.isDue, h.isOpen, h.now]

theorem poll (h : w.Agree whole w') (c : Call) :
    c.poll w.remote w.now w.turn = c.poll w'.remote w'.now w'.turn := by
  have hpass : c.passGate w.remote w'.now w'.turn = c.passGate w'.remote w'.now w'.turn := by
    rw [Call.passGate, Call.passGate, h.isOpen]
  rw [h.now, h.turn, Call.poll, Call.poll, hpass]

theorem look (h : w.Agree whole w') (f : Fetch) (c : Call) :
    (w.look f c).1 = (w'.look f c).1 ∧ (w.look f c).2.Agree whole (w'.look f c).2 := by
  simp only [Workspace.look, h.poll]
  cases c.poll w'.remote w'.now w'.turn with
  | waiting next => exact ⟨rfl, h.takeTurn⟩
  | ended e =>
    obtain ⟨ho, hw⟩ := h.finish f e
    exact ⟨congrArg Sum.inl ho, hw⟩

end Workspace.Agree

namespace Pool

variable {whole : Prop} {w w' : Workspace}

/-- The outcomes of one step in two workspaces: it can be taken in both or in neither. -/
def Alike (whole : Prop) : Option (Workspace × Pool) → Option (Workspace × Pool) → Prop :=
  Option.Rel fun x x' => x.1.Agree whole x'.1 ∧ x.2 = x'.2

theorem alike_resume? (h : w.Agree whole w') (p : Pool) (ticket : Nat) :
    Alike whole (p.resume? w ticket) (p.resume? w' ticket) := by
  unfold resume?
  cases p.find? ticket with
  | none => exact .none
  | some t =>
    obtain ⟨f, stage⟩ := t
    cases stage with
    | granted =>
      obtain ⟨hfst, hsnd⟩ := h.begin f
      simp only
      revert hfst hsnd
      obtain ⟨begun, v⟩ := w.begin f
      obtain ⟨begun', v'⟩ := w'.begin f
      rintro rfl hv
      cases begun with
      | inl o => exact .some ⟨hv, rfl⟩
      | inr c => exact .some ⟨hv, rfl⟩
    | calling c =>
      simp only [h.isDue]
      split
      · obtain ⟨hfst, hsnd⟩ := h.look f c
        revert hfst hsnd
        obtain ⟨looked, v⟩ := w.look f c
        obtain ⟨looked', v'⟩ := w'.look f c
        rintro rfl hv
        cases looked with
        | inl o => exact .some ⟨hv, rfl⟩
        | inr c => exact .some ⟨hv, rfl⟩
      · exact .none

theorem alike_move? (h : w.Agree whole w') (p : Pool) (m : Move) :
    Alike whole (p.move? w m) (p.move? w' m) := by
  have hpool (p? : Option Pool) : Alike whole (p?.map (w, ·)) (p?.map (w', ·)) := by
    cases p? with
    | none => exact .none
    | some q => exact .some ⟨h, rfl⟩
  cases m with
  | receive => exact hpool _
  | grant => exact hpool _
  | leave => exact hpool _
  | resume ticket => exact alike_resume? h p ticket

/-- The same fetch makes its call. -/
theorem called?_congr (h : w.Agree whole w') (p : Pool) (m : Move) : p.called? w m = p.called? w' m := by
  cases m with
  | resume ticket => simp only [called?, (h.begin _).1]
  | _ => rfl

end Pool
end LogCatalog
