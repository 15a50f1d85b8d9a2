import DuckdbLoki.CatalogSteps

namespace DuckdbLoki

open LokiCatalog Publication

namespace CatalogState

def pins (s : CatalogState) (i : ℕ) : Option SnapshotPtr := (s.tasks[i]?).bind Task.snapshot

/-- The catalog as a publication of generations, pinned by its threads. -/
def publication (s : CatalogState) : Publication.State SnapshotPtr ℕ :=
  ⟨s.current, s.retired, s.pins⟩

def Rooted (s : CatalogState) : Prop :=
  ∀ p, s.publication.Kept p → ∃ g, p = some g ∧ g < s.heap.length

end CatalogState

section Pins

variable {c : LokiCatalog} {s t : CatalogState} {i : ℕ} {old new : Task} {e : Event}

theorem pins_of_task (h : s.tasks[i]? = some old) : s.pins i = old.snapshot := by
  rw [CatalogState.pins, h, Option.bind_some]

theorem pins_put (h : s.tasks[i]? = some old) (new : Task) :
    (s.put i new).pins = Function.update s.pins i new.snapshot := by
  funext j
  rw [CatalogState.pins, tasks_put h]
  by_cases hj : j = i
  · rw [if_pos hj, hj, Function.update_self, Option.bind_some]
  · rw [if_neg hj, Function.update_of_ne hj]
    rfl

theorem pins_spawn (task : Task) :
    (s.spawn task).pins = Function.update s.pins s.tasks.length task.snapshot := by
  funext j
  rw [CatalogState.pins, tasks_spawn]
  by_cases hj : j = s.tasks.length
  · rw [if_pos hj, hj, Function.update_self, Option.bind_some]
  · rw [if_neg hj, Function.update_of_ne hj]
    rfl

theorem Move.snapshot (h : Move c s i old new e) : new.snapshot = old.snapshot := by
  cases h <;> rfl

theorem pins_put_eq (h : s.tasks[i]? = some old) (new : Task)
    (hsnapshot : new.snapshot = old.snapshot) : (s.put i new).pins = s.pins := by
  rw [pins_put h, hsnapshot, ← pins_of_task h, Function.update_eq_self]

end Pins

section Reclaim

variable {s : CatalogState} {snapshot : LokiCatalogSnapshot}

theorem any_snapshot_iff (p : SnapshotPtr) :
    s.tasks.any (fun task ↦ task.snapshot = some p) = true ↔ s.publication.Used p := by
  rw [List.any_eq_true]
  constructor
  · intro ⟨task, htask, hp⟩
    obtain ⟨i, hi⟩ := List.mem_iff_getElem?.mp htask
    exact ⟨i, (pins_of_task hi).trans (of_decide_eq_true hp)⟩
  · intro ⟨i, hi⟩
    obtain ⟨task, htask, hp⟩ := Option.bind_eq_some_iff.mp hi
    exact ⟨task, List.mem_of_getElem? htask, decide_eq_true hp⟩

/-- A retired generation has a single reference exactly when no thread has it. -/
theorem useCount_eq_one_iff {p : SnapshotPtr} {g : ℕ} (hp : p = some g) (hcurrent : s.current ≠ p)
    (hnodup : s.retired.Nodup) (hmem : p ∈ s.retired) :
    s.useCount p = 1 ↔ s.tasks.any (fun task ↦ task.snapshot = some p) = false := by
  have hcount := List.count_eq_one_of_mem hnodup hmem
  have huse : s.useCount p = 1 + s.tasks.countP (fun task ↦ task.snapshot = some p) := by
    rw [hp] at hcurrent hcount ⊢
    rw [CatalogState.useCount, if_neg hcurrent, hcount, Nat.zero_add]
  rw [huse, Nat.add_eq_left, List.countP_eq_zero, List.any_eq_false]

theorem publish_retired (hs : s.publication.Sound) (hroot : s.Rooted) :
    (s.publish snapshot).retired = (s.retired ++ [s.current]).filter
      (fun p ↦ s.tasks.any (fun task ↦ task.snapshot = some p)) := by
  apply reap_eq_filter
  intro l hl p hp
  have hnodup : (s.retired ++ [s.current]).Nodup := by
    rw [List.nodup_append']
    exact ⟨hs.nodup, List.nodup_singleton _, List.disjoint_singleton.mpr hs.current_notMem⟩
  have hkept : s.publication.Kept p := by
    rcases List.mem_append.mp (hl.subset hp) with h | h
    · exact Or.inr h
    · exact Or.inl (List.mem_singleton.mp h)
  obtain ⟨g, hg, hlt⟩ := hroot p hkept
  have hne : some s.heap.length ≠ p := by
    rw [hg]
    intro h
    exact hlt.ne' (Option.some.inj h)
  rw [Bool.eq_iff_iff, decide_eq_true_iff, Bool.not_eq_true']
  exact useCount_eq_one_iff (s := { s with
    heap := s.heap ++ [snapshot], current := some s.heap.length, retired := l }) hg hne
    (hl.nodup hnodup) hp

end Reclaim

section Refinement

variable {c : LokiCatalog} {s t : CatalogState} {e : Event}

theorem publication_put {shared : CatalogState} {i : ℕ} {old : Task} (new : Task)
    (hold : shared.tasks[i]? = some old) (hpins : shared.pins = s.pins)
    (hcurrent : shared.current = s.current) (hretired : shared.retired = s.retired) :
    (shared.put i new).publication =
      { s.publication with pins := Function.update s.pins i new.snapshot } := by
  have hput := pins_put hold new
  rw [hpins] at hput
  rw [CatalogState.publication, hput]
  change Publication.State.mk shared.current shared.retired _ = _
  rw [hcurrent, hretired]
  rfl

theorem pinnedSnapshot_cases {transaction : Option ℕ} {p : SnapshotPtr}
    (h : pinnedSnapshot s transaction = some p) :
    p = s.current ∨ ∃ x, transaction = some x ∧ s.tasks[x]? = some (.live p) := by
  unfold pinnedSnapshot at h
  split at h
  · exact Or.inl (Option.some.inj h).symm
  · rename_i x
    split at h
    · exact Or.inl (Option.some.inj h).symm
    · rename_i g hlive
      rw [← Option.some.inj h]
      exact Or.inr ⟨x, rfl, hlive⟩
    · cases h

theorem Spawned.publication {task : Task} (h : Spawned c s task e) :
    Publication.Step s.publication (s.spawn task).publication := by
  have hspawn : (s.spawn task).publication = { s.publication with
      pins := Function.update s.pins s.tasks.length task.snapshot } := by
    rw [CatalogState.publication, pins_spawn]
    rfl
  rw [hspawn]
  cases h with
  | transaction | refresh | refuse => exact .drop _ _
  | @find transaction p query hp =>
    rcases pinnedSnapshot_cases hp with heq | ⟨x, _, hlive⟩
    · rw [heq]
      exact .pin _ _
    · exact .share _ _ (pins_of_task hlive)

theorem publish_fresh (hroot : s.Rooted) : ¬ s.publication.Kept (some s.heap.length) := by
  intro hkept
  obtain ⟨g, hg, hlt⟩ := hroot _ hkept
  exact hlt.ne' (Option.some.inj hg)

theorem publish_publication {i : ℕ} {caller : Caller} {snapshot : LokiCatalogSnapshot}
    (hs : s.publication.Sound) (hroot : s.Rooted)
    (hold : s.tasks[i]? = some (.publishing caller snapshot)) :
    ((s.publish snapshot).put i (.refreshed caller none)).publication =
      { s.publication with
        current := some s.heap.length
        retired := (s.retired ++ [s.current]).filter
          (fun p ↦ s.tasks.any (fun task ↦ task.snapshot = some p)) } := by
  have hput : (s.publish snapshot).tasks[i]? = some (.publishing caller snapshot) := hold
  have hpins : ((s.publish snapshot).put i (.refreshed caller none)).pins = s.pins :=
    pins_put_eq hput (.refreshed caller none) rfl
  rw [CatalogState.publication, hpins]
  change Publication.State.mk _ (s.publish snapshot).retired _ = _
  rw [publish_retired hs hroot]
  rfl

theorem Turn.publication {i : ℕ} {old new : Task} {shared : CatalogState}
    (hs : s.publication.Sound) (hroot : s.Rooted) (hold : s.tasks[i]? = some old)
    (h : Turn c s i old new shared e) :
    Publication.Step s.publication (shared.put i new).publication := by
  have hpins : shared.pins = s.pins := by
    funext j
    rw [CatalogState.pins, CatalogState.pins, h.tasks]
  have hput := h.tasks ▸ hold
  cases h with
  | move hmove =>
    rw [publication_put new hput hpins rfl rfl, hmove.snapshot, ← pins_of_task hold,
      Function.update_eq_self]
    exact .stay _
  | pin =>
    rw [publication_put _ hput hpins rfl rfl]
    exact .pin _ _
  | publish caller snapshot =>
    rw [publish_publication hs hroot hold]
    exact .publish _ (publish_fresh hroot) any_snapshot_iff
  | _ =>
    rw [publication_put _ hput hpins rfl rfl]
    exact .drop _ _

theorem Turn.rooted {i : ℕ} {old new : Task} {shared : CatalogState}
    (hs : s.publication.Sound) (hroot : s.Rooted) (h : Turn c s i old new shared e) :
    shared.Rooted := by
  cases h with
  | publish caller snapshot =>
    intro p hp
    have hlen : (s.publish snapshot).heap.length = s.heap.length + 1 := List.length_append
    rw [hlen]
    rcases hp with heq | hmem
    · exact ⟨s.heap.length, heq, Nat.lt_succ_self _⟩
    · change p ∈ (s.publish snapshot).retired at hmem
      rw [publish_retired hs hroot] at hmem
      have hkept : s.publication.Kept p := by
        rcases List.mem_append.mp (List.mem_of_mem_filter hmem) with h | h
        · exact Or.inr h
        · exact Or.inl (List.mem_singleton.mp h)
      obtain ⟨g, hg, hlt⟩ := hroot p hkept
      exact ⟨g, hg, Nat.lt_succ_of_lt hlt⟩
  | _ => exact hroot

/-- Every step of the catalog is one of the publication, and keeps its roots. -/
theorem Effect.publication (h : Effect c s t e) (hs : s.publication.Sound) (hroot : s.Rooted) :
    Publication.Step s.publication t.publication ∧ t.Rooted := by
  cases h with
  | tick => exact ⟨.stay _, hroot⟩
  | spawn hspawn => exact ⟨hspawn.publication, hroot⟩
  | turn hold hturn =>
    have hshared := hturn.rooted hs hroot
    exact ⟨hturn.publication hs hroot hold, hshared⟩

end Refinement

section Invariant

variable {c : LokiCatalog} {s t : CatalogState} {e : Event}

structure CatalogState.Pinning (s : CatalogState) : Prop where
  sound : s.publication.Sound
  rooted : s.Rooted

theorem Effect.pinning (h : Effect c s t e) (hs : s.Pinning) : t.Pinning := by
  obtain ⟨hstep, hroot⟩ := h.publication hs.sound hs.rooted
  exact ⟨hstep.sound hs.sound, hroot⟩

theorem initializeState_eq {nowNs : ℤ} (h : c.initializeState nowNs = some s) :
    ∃ snapshot, buildSnapshot c.config (c.config.tenants.map LokiTenant.labelColumns) 0 =
        .ok snapshot ∧
      s = ⟨[snapshot], some 0, [], none, nowNs + c.config.labelCacheTtlNs, nowNs, []⟩ := by
  obtain ⟨snapshot, hbuild, h⟩ := Option.bind_eq_some_iff.mp h
  obtain ⟨deadline, hsum, h⟩ := Option.bind_eq_some_iff.mp h
  refine ⟨snapshot, ?_, ?_⟩
  · cases hresult : buildSnapshot c.config (c.config.tenants.map LokiTenant.labelColumns) 0 with
    | error message =>
      rw [hresult] at hbuild
      cases hbuild
    | ok built =>
      rw [hresult] at hbuild
      exact congrArg Except.ok (Option.some.inj hbuild)
  · rw [(checked_eq_some.mp hsum).2]
    exact (Option.some.inj h).symm

theorem initializeState_tasks {nowNs : ℤ} (h : c.initializeState nowNs = some s) : s.tasks = [] := by
  obtain ⟨_, _, heq⟩ := initializeState_eq h
  rw [heq]

theorem initializeState_pinning {nowNs : ℤ} (h : c.initializeState nowNs = some s) :
    s.Pinning := by
  obtain ⟨snapshot, _, heq⟩ := initializeState_eq h
  rw [heq]
  refine ⟨⟨List.nodup_nil, List.not_mem_nil, nofun⟩, ?_⟩
  intro p hp
  rcases hp with h | h
  · exact ⟨0, h, Nat.zero_lt_one⟩
  · cases h

theorem run_pinning {nowNs : ℤ} (h : c.initializeState nowNs = some s)
    {tr : List (Machines.Transition CatalogState Action Event)} (hrun : Machines.Run c.step s tr t) :
    t.Pinning :=
  hrun.invariant (fun _ _ _ _ hs hstep ↦ (step_effect hstep).pinning hs)
    (initializeState_pinning h)

theorem Effect.reclaimed {i g : ℕ} (h : Effect c s t (.published i g)) (hs : s.Pinning) :
    t.publication.Reclaimed := by
  cases h with
  | spawn hspawn => cases hspawn
  | turn hold hturn =>
    cases hturn with
    | move hmove => cases hmove
    | publish caller snapshot =>
      rw [publish_publication hs.sound hs.rooted hold]
      exact (hs.sound.publish (publish_fresh hs.rooted) any_snapshot_iff).2

theorem Effect.heap (h : Effect c s t e) : s.heap <+: t.heap := by
  cases h with
  | turn hold hturn =>
    cases hturn with
    | publish caller snapshot => exact List.prefix_append _ _
    | _ => exact List.prefix_refl _
  | _ => exact List.prefix_refl _

theorem deref_of_prefix (h : s.heap <+: t.heap) {p : SnapshotPtr}
    {snapshot : LokiCatalogSnapshot} (hp : s.deref p = some snapshot) :
    t.deref p = some snapshot := by
  obtain ⟨g, hg, hget⟩ := Option.bind_eq_some_iff.mp hp
  obtain ⟨rest, hrest⟩ := h
  rw [CatalogState.deref, hg, Option.bind_some, ← hrest]
  exact (List.getElem?_append_left (List.getElem?_eq_some_iff.mp hget).1).trans hget

end Invariant

section Isolation

abbrev CatalogTrace := List (Machines.Transition CatalogState Action Event)

def Event.pin (i : ℕ) : Event → Option SnapshotPtr
  | .pinned j p => if j = i then some p else none
  | _ => none

def pinOf (tr : CatalogTrace) (i : ℕ) : Option SnapshotPtr := tr.findSome? (fun x ↦ x.event.pin i)

def PinnedBy (pin : ℕ → Option SnapshotPtr) (i : ℕ) : Task → Prop
  | .pinned p | .live p => pin i = some p
  | .looking (some x) _ p => pin x = some p
  | .looking none _ _ | .finished => True
  | _ => pin i = none

structure Isolated (c : LokiCatalog) (tr : CatalogTrace) (t : CatalogState) : Prop where
  unborn : ∀ i, t.tasks.length ≤ i → pinOf tr i = none
  tasks : ∀ i task, t.tasks[i]? = some task → PinnedBy (pinOf tr) i task
  pins : ∀ x ∈ tr, ∀ i p, x.event = .pinned i p → pinOf tr i = some p ∧ x.before.current = p
  answers : ∀ x ∈ tr, ∀ i transaction p query answer,
    x.event = .returned i (some transaction) p query answer → pinOf tr transaction = some p ∧
      ∃ snapshot, t.deref p = some snapshot ∧ answer = c.answer snapshot query

variable {c : LokiCatalog} {s t : CatalogState} {e : Event} {tr : CatalogTrace}

theorem pinOf_snoc (x : Machines.Transition CatalogState Action Event) (i : ℕ) :
    pinOf (tr ++ [x]) i = (pinOf tr i).or (x.event.pin i) := by
  rw [pinOf, List.findSome?_append, pinOf, List.findSome?_singleton]

theorem pinOf_mono (x : Machines.Transition CatalogState Action Event) {i : ℕ} {p : SnapshotPtr}
    (h : pinOf tr i = some p) : pinOf (tr ++ [x]) i = some p := by
  rw [pinOf_snoc, h, Option.some_or]

theorem pin_of_thread_ne {i : ℕ} (h : e.thread ≠ some i) : e.pin i = none := by
  cases e with
  | pinned j p => exact if_neg (fun hj ↦ h (congrArg some hj))
  | _ => rfl

theorem Effect.pin_cases (h : Effect c s t e) (i : ℕ) :
    e.pin i = none ∨ s.tasks[i]? = some .pinning ∧ e = .pinned i s.current := by
  cases h with
  | tick => exact Or.inl rfl
  | spawn hspawn => cases hspawn <;> exact Or.inl rfl
  | @turn j _ _ _ _ hold hturn =>
    cases hturn with
    | move hmove => cases hmove <;> exact Or.inl rfl
    | pin =>
      by_cases hj : j = i
      · rw [← hj]
        exact Or.inr ⟨hold, rfl⟩
      · exact Or.inl (if_neg hj)
    | _ => exact Or.inl rfl

theorem PinnedBy.snoc {x : Machines.Transition CatalogState Action Event} {i : ℕ} {task : Task}
    (h : PinnedBy (pinOf tr) i task) (hx : x.event.pin i = none) :
    PinnedBy (pinOf (tr ++ [x])) i task := by
  cases task with
  | pinned p | live p => exact pinOf_mono x h
  | looking transaction query p =>
    cases transaction with
    | none => trivial
    | some y => exact pinOf_mono x h
  | finished => trivial
  | _ =>
    apply (pinOf_snoc x i).trans
    rw [hx, Option.or_none]
    exact h

theorem Move.pinnedBy {i : ℕ} {old new : Task} {pin : ℕ → Option SnapshotPtr}
    (h : Move c s i old new e) (hold : PinnedBy pin i old) : PinnedBy pin i new := by
  cases h <;> exact hold

theorem Turn.pinnedBy {i : ℕ} {old new : Task} {shared : CatalogState} {a : Action}
    (h : Turn c s i old new shared e) (hold : PinnedBy (pinOf tr) i old) :
    PinnedBy (pinOf (tr ++ [⟨s, a, e, t⟩])) i new := by
  cases h with
  | move hmove =>
    apply PinnedBy.snoc (hmove.pinnedBy hold)
    cases hmove <;> rfl
  | pin =>
    apply (pinOf_snoc _ i).trans
    rw [show pinOf tr i = none from hold]
    exact if_pos rfl
  | finish | fail | close | answer => trivial
  | _ =>
    refine PinnedBy.snoc ?_ rfl
    exact hold

theorem pinnedSnapshot_live (hs : s.Pinning) {x : ℕ} {p : SnapshotPtr}
    (h : pinnedSnapshot s (some x) = some p) : s.tasks[x]? = some (.live p) := by
  unfold pinnedSnapshot at h
  dsimp only at h
  split at h
  · rename_i hnull
    obtain ⟨g, hg, _⟩ := hs.rooted none (hs.sound.pinned x none (pins_of_task hnull))
    cases hg
  · rename_i g hlive
    rw [← Option.some.inj h]
    exact hlive
  · cases h

theorem Effect.of_returned {i : ℕ} {transaction : Option ℕ} {p : SnapshotPtr}
    {query : CatalogQuery} {answer : Except Str (List LokiSchemaEntry)}
    (h : Effect c s t (.returned i transaction p query answer)) :
    ∃ snapshot, s.tasks[i]? = some (.looking transaction query p) ∧ s.deref p = some snapshot ∧
      answer = c.answer snapshot query := by
  cases h with
  | spawn hspawn => cases hspawn
  | turn hold hturn =>
    cases hturn with
    | move hmove => cases hmove
    | answer _ _ hderef => exact ⟨_, hold, hderef, rfl⟩

section Snoc

variable {a : Action} (hI : Isolated c tr s) (h : Effect c s t e)

include hI h

theorem Isolated.snoc_unborn {i : ℕ} (hi : t.tasks.length ≤ i) :
    pinOf (tr ++ [⟨s, a, e, t⟩]) i = none := by
  have hlen := h.length_le.trans hi
  rcases h.pin_cases i with hnone | ⟨hpinning, _⟩
  · rw [pinOf_snoc, hI.unborn i hlen, hnone, Option.none_or]
  · rw [List.getElem?_eq_none hlen] at hpinning
    cases hpinning

theorem Isolated.snoc_tasks (hs : s.Pinning) {i : ℕ} {task : Task}
    (htask : t.tasks[i]? = some task) : PinnedBy (pinOf (tr ++ [⟨s, a, e, t⟩])) i task := by
  rcases h.task_cases htask with ⟨hsame, hthread⟩ | ⟨hi, hspawn, _⟩ | ⟨old, shared, hold, hturn, _⟩
  · exact (hI.tasks i task hsame).snoc (pin_of_thread_ne hthread)
  · have hunborn := hI.unborn i hi.ge
    cases hspawn with
    | @find transaction p query hp =>
      cases transaction with
      | none => trivial
      | some x => exact pinOf_mono _ (hI.tasks x _ (pinnedSnapshot_live hs hp))
    | refuse => trivial
    | _ =>
      refine PinnedBy.snoc ?_ rfl
      exact hunborn
  · exact hturn.pinnedBy (hI.tasks i old hold)

theorem Isolated.snoc_pin {i : ℕ} {p : SnapshotPtr} (hevent : e = .pinned i p) :
    pinOf (tr ++ [⟨s, a, e, t⟩]) i = some p ∧ s.current = p := by
  rcases h.pin_cases i with hnone | ⟨hpinning, heq⟩
  · rw [hevent, Event.pin, if_pos rfl] at hnone
    cases hnone
  · have hunpinned : pinOf tr i = none := hI.tasks i _ hpinning
    rw [hevent] at heq
    obtain ⟨_, hp⟩ := Event.pinned.inj heq
    refine ⟨?_, hp.symm⟩
    rw [pinOf_snoc, hunpinned, hevent]
    exact if_pos rfl

theorem Isolated.snoc_answer {i transaction : ℕ} {p : SnapshotPtr} {query : CatalogQuery}
    {answer : Except Str (List LokiSchemaEntry)}
    (hevent : e = .returned i (some transaction) p query answer) :
    pinOf (tr ++ [⟨s, a, e, t⟩]) transaction = some p ∧
      ∃ snapshot, t.deref p = some snapshot ∧ answer = c.answer snapshot query := by
  rw [hevent] at h
  obtain ⟨snapshot, htask, hderef, hanswer⟩ := h.of_returned
  have hpin : pinOf tr transaction = some p := hI.tasks i _ htask
  exact ⟨pinOf_mono _ hpin, snapshot, deref_of_prefix h.heap hderef, hanswer⟩

theorem Isolated.snoc (hs : s.Pinning) : Isolated c (tr ++ [⟨s, a, e, t⟩]) t := by
  refine ⟨?_, ?_, ?_, ?_⟩
  · intro i hi
    exact hI.snoc_unborn h hi
  · intro i task htask
    exact hI.snoc_tasks h hs htask
  · intro x hx i p hevent
    rcases List.mem_append.mp hx with hx | hx
    · obtain ⟨hpin, hcurrent⟩ := hI.pins x hx i p hevent
      exact ⟨pinOf_mono _ hpin, hcurrent⟩
    · rw [List.mem_singleton.mp hx] at hevent ⊢
      exact hI.snoc_pin h hevent
  · intro x hx i transaction p query answer hevent
    rcases List.mem_append.mp hx with hx | hx
    · obtain ⟨hpin, snapshot, hderef, hanswer⟩ := hI.answers x hx i transaction p query answer hevent
      exact ⟨pinOf_mono _ hpin, snapshot, deref_of_prefix h.heap hderef, hanswer⟩
    · rw [List.mem_singleton.mp hx] at hevent
      exact hI.snoc_answer h hevent

end Snoc

theorem run_isolated {nowNs : ℤ} {s₀ : CatalogState} (h : c.initializeState nowNs = some s₀)
    (hrun : Machines.Run c.step s₀ tr t) : Isolated c tr t := by
  induction hrun with
  | nil =>
    obtain ⟨snapshot, _, heq⟩ := initializeState_eq h
    rw [heq]
    refine ⟨fun _ _ ↦ rfl, ?_, ?_, ?_⟩
    · intro i task htask
      rw [List.getElem?_nil] at htask
      cases htask
    · intro x hx
      exact absurd hx List.not_mem_nil
    · intro x hx
      exact absurd hx List.not_mem_nil
  | snoc hrun hstep ih => exact ih.snoc (step_effect hstep) (run_pinning h hrun)

/-- In every run, a lookup returns entries of the generation its transaction
pinned, which was current then; what a transaction has pinned stays with the
catalog, and right after a publication the retired generations are those that
are still referred to. -/
theorem catalog_isolation {nowNs : ℤ} {s₀ : CatalogState} (h : c.initializeState nowNs = some s₀)
    (hrun : Machines.Run c.step s₀ tr t) :
    (∃ g snapshot, t.current = some g ∧ t.deref t.current = some snapshot) ∧
      (∀ x ∈ tr, ∀ i transaction p query answer,
        x.event = .returned i (some transaction) p query answer → pinOf tr transaction = some p ∧
          ∃ snapshot, t.deref p = some snapshot ∧ answer = c.answer snapshot query) ∧
      (∀ x ∈ tr, ∀ i p, x.event = .pinned i p → pinOf tr i = some p ∧ x.before.current = p) ∧
      (∀ i p, t.tasks[i]? = some (.live p) → pinOf tr i = some p ∧
        (p = t.current ∨ p ∈ t.retired)) ∧
      ∀ x ∈ tr, ∀ i g, x.event = .published i g → x.after.retired.Nodup ∧
        ∀ p, p ∈ x.after.retired ↔ p ≠ x.after.current ∧
          ∃ j : ℕ, ∃ task : Task, x.after.tasks[j]? = some task ∧ task.snapshot = some p := by
  have hI := run_isolated h hrun
  have hs := run_pinning h hrun
  refine ⟨?_, hI.answers, hI.pins, ?_, ?_⟩
  · obtain ⟨g, hg, hlt⟩ := hs.rooted t.current (Or.inl rfl)
    refine ⟨g, t.heap[g], hg, ?_⟩
    rw [CatalogState.deref, hg, Option.bind_some]
    exact List.getElem?_eq_getElem hlt
  · intro i p hlive
    exact ⟨hI.tasks i _ hlive, hs.sound.pinned i p (pins_of_task hlive)⟩
  · intro x hx i g hevent
    obtain ⟨xs, ys, hsplit⟩ := List.append_of_mem hx
    rw [hsplit] at hrun
    obtain ⟨hbefore, hvalid, _⟩ := hrun.around
    have heffect := step_effect hvalid
    rw [hevent] at heffect
    obtain ⟨hnodup, hretired⟩ := heffect.reclaimed (run_pinning h hbefore)
    refine ⟨hnodup, ?_⟩
    intro p
    apply (hretired p).trans
    apply and_congr_right
    intro _
    apply exists_congr
    intro j
    exact Option.bind_eq_some_iff

end Isolation

section Sample

def labelsBody : Str := "\x7b\"status\":\"success\",\"data\":[\"app\"]\x7d".toList

def appLabels : LokiCatalog where
  name := "logs".toList
  config := {
    endpoint := "http://loki:3100".toList
    auth := ⟨[], [], [], [], []⟩
    tenants := [⟨"acme".toList, "acme".toList, []⟩, ⟨"umbrella".toList, "umbrella".toList, []⟩]
    labelsPinned := false
    labelCacheTtlNs := 10
    seriesMaxRows := 100000 }
  read body := if body = labelsBody then
      some (.object [("status".toList, .string "success".toList),
        ("data".toList, .array [.string "app".toList])])
    else none

def labelsResponse : HttpResponse := ⟨200, labelsBody, []⟩

def noResponse : HttpResponse := ⟨0, [], "Could not establish connection".toList⟩

/-- A transaction pins the attach-time generation; the `PRAGMA` publishes the
next one; a refresh by another transaction fails for its second tenant. -/
def sampleActions : List Action :=
  List.flatten [.startTransaction :: List.replicate 4 (.advance 0),
    [.refreshLabels, .advance 1, .reply 1 labelsResponse, .reply 1 labelsResponse],
    List.replicate 6 (.advance 1), [.find (some 0) .scanSchemas, .advance 2],
    .tick 20 :: .startTransaction :: List.replicate 4 (.advance 3),
    [.reply 3 labelsResponse, .reply 3 noResponse]]

def sampleRun : Option (CatalogTrace × CatalogState) :=
  (appLabels.initializeState 0).bind (fun s ↦ Machines.exec appLabels.step s sampleActions)

theorem sampleRun_run : ∃ s₀ tr t, appLabels.initializeState 0 = some s₀ ∧
    Machines.Run appLabels.step s₀ tr t ∧ sampleRun = some (tr, t) ∧
      t.current = some 1 ∧ t.tasks[0]? = some (.live (some 0)) := by
  have hsome : sampleRun.any (fun x ↦ x.2.current = some 1 ∧
      x.2.tasks[0]? = some (.live (some 0))) = true := by decide +kernel
  obtain ⟨⟨tr, t⟩, hrun, hfacts⟩ := (Option.any_eq_true _ _).mp hsome
  obtain ⟨s₀, hs₀, hexec⟩ := Option.bind_eq_some_iff.mp hrun
  exact ⟨s₀, tr, t, hs₀, Machines.exec_run hexec, hrun, of_decide_eq_true hfacts⟩

theorem catalog_isolation_sample : ∃ s₀ tr t, appLabels.initializeState 0 = some s₀ ∧
    Machines.Run appLabels.step s₀ tr t ∧ t.current = some 1 ∧ pinOf tr 0 = some (some 0) ∧
      (some 0 = t.current ∨ some 0 ∈ t.retired) := by
  obtain ⟨s₀, tr, t, hs₀, hrun, _, hcurrent, hlive⟩ := sampleRun_run
  obtain ⟨_, _, _, hpinned, _⟩ := catalog_isolation hs₀ hrun
  exact ⟨s₀, tr, t, hs₀, hrun, hcurrent, hpinned 0 (some 0) hlive⟩

end Sample

end DuckdbLoki
