import LogCatalog.Remote

/-!
# Contact with the remote side

Whether a cluster is reached depends on the active controller and the clusters alone, and so does the
address that the remote side gives for a log. Of the remote side itself a contact changes nothing but
the number of calls.
-/
namespace LogCatalog.Remote

/-- The cluster of that name, if the active controller reaches it. -/
def reached? (r : Remote) (cluster : String) : Option Cluster :=
  r.controller.name.bind fun active =>
    (r.clusters cluster).filter fun c => c.controller.all (· == active)

/-- The remote side after somebody asked the active controller for a cluster. -/
def contacted (r : Remote) : Remote :=
  match r.controller.name with
  | none => r
  | some _ => { r with calls := { r.calls with contacts := r.calls.contacts + 1 } }

/-- The address that the remote side gives for a log, if the cluster is reached. -/
def address? (r : Remote) (base component host cluster : String) : Option String :=
  (r.reached? cluster).bind fun c => c.tailAddress base component host

/-- The remote side after it was asked for an address. -/
def addressed (r : Remote) (cluster : String) : Remote :=
  match r.reached? cluster with
  | none => r.contacted
  | some _ => { r.contacted with calls := { r.contacted.calls with tails := r.calls.tails + 1 } }

variable {r r' : Remote} {cluster : String}

/-- A contact finds no controller, or no cluster that the controller reaches, or the cluster. -/
theorem contact_cases (r : Remote) (cluster : String) :
    (r.controller.name = none ∧ r.reached? cluster = none ∧
      r.contact cluster = (.noController, r.contacted)) ∨
    (r.controller.name ≠ none ∧ r.reached? cluster = none ∧
      r.contact cluster = (.noCluster, r.contacted)) ∨
    ∃ c, r.reached? cluster = some c ∧ r.contact cluster = (.reached c, r.contacted) := by
  simp only [contact, contacted, reached?]
  cases r.controller.name with
  | none => exact .inl ⟨rfl, rfl, rfl⟩
  | some active =>
    refine .inr ?_
    cases r.clusters cluster with
    | none => exact .inl ⟨Option.some_ne_none _, rfl, rfl⟩
    | some c =>
      cases hall : c.controller.all (· == active) with
      | false => exact .inl ⟨Option.some_ne_none _, by simp [hall], by simp [hall]⟩
      | true => exact .inr ⟨c, by simp [hall], by simp [hall]⟩

theorem reached?_congr (hcontroller : r.controller = r'.controller)
    (hclusters : r.clusters = r'.clusters) : r.reached? cluster = r'.reached? cluster := by
  rw [reached?, reached?, hcontroller, hclusters]

theorem address?_congr (hcontroller : r.controller = r'.controller)
    (hclusters : r.clusters = r'.clusters) (base component host cluster : String) :
    r.address? base component host cluster = r'.address? base component host cluster := by
  rw [address?, address?, reached?_congr hcontroller hclusters]

theorem contact_congr (hcontroller : r.controller = r'.controller)
    (hclusters : r.clusters = r'.clusters) : (r.contact cluster).1 = (r'.contact cluster).1 := by
  simp only [contact, hcontroller, hclusters]
  cases r'.controller.name with
  | none => rfl
  | some active =>
    cases r'.clusters cluster with
    | none => rfl
    | some c => cases hall : c.controller.all (· == active) <;> simp [hall]

theorem contact_snd (r : Remote) (cluster : String) : (r.contact cluster).2 = r.contacted := by
  rcases r.contact_cases cluster with ⟨-, -, e⟩ | ⟨-, -, e⟩ | ⟨c, -, e⟩ <;> rw [e]

theorem contacted_frame (r : Remote) :
    r.contacted = { r with calls := r.contacted.calls } ∧
      r.contacted.calls.listings = r.calls.listings ∧ r.contacted.calls.tails = r.calls.tails := by
  unfold contacted
  split <;> exact ⟨rfl, rfl, rfl⟩

theorem addressed_frame (r : Remote) (cluster : String) :
    r.addressed cluster = { r with calls := (r.addressed cluster).calls } ∧
      (r.addressed cluster).calls.listings = r.calls.listings := by
  obtain ⟨hframe, hlistings, -⟩ := r.contacted_frame
  unfold addressed
  split
  · exact ⟨hframe, hlistings⟩
  · rw [hframe]
    exact ⟨rfl, hlistings⟩

/-- A cluster is asked for an address just when it is reached. -/
theorem tails_addressed (r : Remote) (cluster : String) :
    (r.addressed cluster).calls.tails =
      if (r.reached? cluster).isSome then r.calls.tails + 1 else r.calls.tails := by
  unfold addressed
  cases r.reached? cluster with
  | none => exact r.contacted_frame.2.2
  | some c => rfl

end LogCatalog.Remote
