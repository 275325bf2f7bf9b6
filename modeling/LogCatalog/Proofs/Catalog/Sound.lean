import LogCatalog.Proofs.Catalog.Traffic

/-!
# Sound catalogs

The books of the pool are in order, the pool serves exactly as long as the catalog runs, and the
outstanding fetches belong to the present epoch of the cache until the catalog is stopped, and to an
older one from then on. Every action keeps this.
-/
namespace LogCatalog.Catalog

structure Sound (s : Catalog) : Prop where
  tidy : s.Tidy
  books : Pool.Balanced s.work s.pool
  serving : s.phase = .running → s.pool.accepting ∧ s.pool.looping
  current : s.phase ≠ .stopped → ∀ f ∈ s.pool.outstanding, f.epoch = s.work.names.epoch
  outdated : s.phase = .stopped → ∀ f ∈ s.pool.outstanding, f.epoch ≠ s.work.names.epoch

variable {s s' : Catalog}

theorem not_isMarked_new (policy : Policy) (remote : Remote) (k : Key) :
    ¬(new policy remote).work.registry.isMarked k := by
  rw [Registry.isMarked_iff]
  exact Std.ExtTreeSet.not_mem_empty

theorem sound_new (policy : Policy) (remote : Remote) : (new policy remote).Sound where
  tidy := tidy_new policy remote
  books := Pool.balanced_of_outstanding_eq_nil rfl rfl (not_isMarked_new policy remote)
  serving h := nomatch h
  current _ _ hf := nomatch hf
  outdated h := nomatch h

/-- What soundness reads: the phase, the outstanding fetches and their number, whether the pool
serves, the registry, the tickets and the epoch of the cache. -/
theorem Sound.congr (h : s.Sound) (ht : s'.Tidy) (hp : s'.phase = s.phase)
    (ho : s'.pool.outstanding = s.pool.outstanding) (hu : s'.pool.unfinished = s.pool.unfinished)
    (hs : s.pool.accepting ∧ s.pool.looping → s'.pool.accepting ∧ s'.pool.looping)
    (hr : s'.work.registry = s.work.registry) (he : s'.work.names.epoch = s.work.names.epoch) :
    s'.Sound where
  tidy := ht
  books := h.books.congr ho hu hr
  serving e := hs (h.serving (hp ▸ e))
  current e := by
    rw [ho, he]
    exact h.current (hp ▸ e)
  outdated e := by
    rw [ho, he]
    exact h.outdated (hp ▸ e)

theorem Sound.start (h : s.Sound) (runtime : Bool) : (s.act (.start runtime)).Sound := by
  have ht := h.tidy.act (.start runtime)
  rcases act_start s runtime with e | ⟨idle, sweepAt, log, e⟩
  · rwa [e]
  · have hm (k : Key) : ¬s.work.registry.isMarked k := by
      rw [h.books.marks, h.tidy.idle idle]
      exact List.not_mem_nil
    rw [e] at ht ⊢
    exact {
      tidy := ht
      books := Pool.balanced_of_outstanding_eq_nil rfl rfl hm
      serving := fun _ => ⟨rfl, rfl⟩
      current := fun _ _ hf => nomatch hf
      outdated := fun e => nomatch e }

theorem epoch_add_one_ne (epoch : UInt64) : epoch ≠ epoch + 1 := by
  intro h
  have hn := congrArg UInt64.toNat h
  rw [UInt64.toNat_add] at hn
  have hlt := epoch.toNat_lt
  have hone : (1 : UInt64).toNat = 1 := rfl
  omega

theorem Sound.stop (h : s.Sound) : (s.act .stop).Sound := by
  have ht := h.tidy.act .stop
  by_cases hp : s.phase = .running
  · rw [act_stop_of_running hp] at ht ⊢
    exact {
      tidy := ht
      books := h.books.congr rfl rfl rfl
      serving := fun e => nomatch e
      current := fun e => absurd rfl e
      outdated := fun _ f hf => by
        rw [h.current (by rw [hp]; exact nofun) f hf]
        exact epoch_add_one_ne _ }
  · rwa [act_stop_of_not_running hp]

theorem Sound.names (h : s.Sound) (component host cluster : String) :
    (s.act (.names component host cluster)).Sound := by
  have ht := h.tidy.act (.names component host cluster)
  by_cases hp : s.phase = .running
  · obtain ⟨answer, -, hserved⟩ := act_names_of_running hp component host cluster
    have hepoch (tallies : List Tally) (r : Request) :
        (s.looked r.key tallies).names.epoch = s.work.names.epoch := Cache.get_epoch _ _ _
    generalize s.act (.names component host cluster) = s' at ht hserved
    cases hserved with
    | hit | turnedAway | joined => exact h.congr ht rfl rfl rfl id rfl (hepoch _ _)
    | queued admits accepting looping =>
      have ho := Pool.outstanding_queued s.pool (s.fetchFor ⟨component, host, cluster⟩)
        (s.pool.unfinished + 1)
      have he := hepoch [.miss, .queued] ⟨component, host, cluster⟩
      exact {
        tidy := ht
        books := h.books.join ho rfl admits.unmarked fun _ => Registry.isMarked_insert
        serving := fun _ => ⟨accepting, looping⟩
        current := fun e f hf => by
          rw [ho, List.mem_append, List.mem_singleton] at hf
          rcases hf with hf | rfl
          · exact (h.current e f hf).trans he.symm
          · exact he.symm
        outdated := fun e => by rw [hp] at e; exact nomatch e }
    | refused admits shut events => exact absurd (h.serving hp) shut
  · rwa [act_names_of_not_running hp]

theorem Sound.tail (h : s.Sound) (base component host cluster : String) :
    (s.act (.tail base component host cluster)).Sound := by
  have ht := h.tidy.act (.tail base component host cluster)
  by_cases hp : s.phase = .running
  · obtain ⟨tails, remote, t, -, e⟩ := act_tail_of_running hp base component host cluster
    rw [e] at ht ⊢
    exact h.congr ht rfl rfl rfl id rfl rfl
  · rwa [act_tail_of_not_running hp]

theorem Sound.sweep (h : s.Sound) : (s.act (.background .sweep)).Sound := by
  have ht := h.tidy.act (.background .sweep)
  rcases act_sweep s with e | ⟨sweepAt, log, e⟩
  · rwa [e]
  · rw [e] at ht ⊢
    exact h.congr ht rfl rfl rfl id rfl rfl

theorem Sound.move (h : s.Sound) (m : Move) : (s.act (.background (.move m))).Sound := by
  have ht := h.tidy.act (.background (.move m))
  rcases act_move s m with ⟨e, -⟩ | ⟨work, pool, e, hs⟩
  · rwa [e]
  · rw [e] at ht ⊢
    obtain ⟨haccepting, hlooping⟩ := hs.accepting
    have hserving : s.pool.accepting ∧ s.pool.looping → pool.accepting ∧ pool.looping := by
      rintro ⟨ha, hl⟩
      rw [haccepting, hlooping ha]
      exact ⟨ha, hl⟩
    cases hx : s.exit? (.background (.move m)) with
    | none =>
      rw [hx] at hs
      obtain ⟨ho, hu, hr, -, hn, -⟩ := hs.quiet
      exact h.congr ht rfl ho hu hserving hr (by rw [hn])
    | some x =>
      rw [hx] at hs
      obtain ⟨-, ho⟩ := hs.outstanding_eq h.tidy.tickets
      have hsub : pool.outstanding ⊆ s.pool.outstanding := ho ▸ List.erase_subset
      have he : work.names.epoch = s.work.names.epoch := by
        rw [hs.closed.names]
        exact (Cache.fill_frame _ _ _ _ _ _).2
      exact {
        tidy := ht
        books := h.books.step h.tidy.tickets hs
        serving := fun e => hserving (h.serving e)
        current := fun e f hf => (h.current e f (hsub hf)).trans he.symm
        outdated := fun e f hf => he ▸ h.outdated e f (hsub hf) }

/-- Every action keeps a catalog sound. -/
theorem Sound.act (h : s.Sound) (a : Action) : (s.act a).Sound := by
  cases a with
  | start runtime => exact h.start runtime
  | stop => exact h.stop
  | names component host cluster => exact h.names component host cluster
  | tail base component host cluster => exact h.tail base component host cluster
  | openGate | install | regroup | elapse => exact h.congr (h.tidy.act _) rfl rfl rfl id rfl rfl
  | background b =>
    cases b with
    | move m => exact h.move m
    | sweep => exact h.sweep

theorem Sound.run (h : s.Sound) (actions : List Action) : (s.run actions).Sound :=
  run_induction h (fun _ a hs => hs.act a) actions

theorem sound_run (policy : Policy) (remote : Remote) (actions : List Action) :
    ((new policy remote).run actions).Sound :=
  (sound_new policy remote).run actions

end LogCatalog.Catalog
