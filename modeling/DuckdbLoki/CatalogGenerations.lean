import DuckdbLoki.CatalogRefresh

namespace DuckdbLoki

open LokiCatalog

section Begin

def Task.refresher : Task → Option Caller
  | .fetching caller _ | .building caller _ _ | .publishing caller _ => some caller
  | _ => none

variable {c : LokiCatalog} {s t shared : CatalogState} {i : ℕ} {caller : Caller} {tr : CatalogTrace}
  {e : Event} {old new : Task}

theorem Move.refresher (h : Move c s i old new e) (hnew : new.refresher = some caller) :
    old.refresher = some caller ∨ new = .fetching caller [] := by
  cases h with
  | attempt =>
    obtain rfl := Option.some.inj hnew
    exact Or.inr rfl
  | reply | changed | built => exact Or.inl hnew
  | _ => cases hnew

theorem Turn.refresher (h : Turn c s i old new shared e) (hnew : new.refresher = some caller) :
    old.refresher = some caller ∨ new = .fetching caller [] := by
  cases h with
  | move hmove => exact hmove.refresher hnew
  | lock =>
    obtain rfl := Option.some.inj hnew
    exact Or.inr rfl
  | _ => cases hnew

theorem Spawned.refresher {task : Task} (h : Spawned c s task e) : task.refresher = none := by
  cases h <;> rfl

theorem run_began {s₀ : CatalogState} (h₀ : s₀.tasks = []) (hrun : Machines.Run c.step s₀ tr t)
    {task : Task} (htask : t.tasks[i]? = some task) (hcaller : task.refresher = some caller) :
    ∃ before during s, tr = before ++ during ∧ Machines.Run c.step s₀ before s ∧
      Machines.Run c.step s during t ∧ s.tasks[i]? = some (.fetching caller []) := by
  induction hrun generalizing task with
  | nil =>
    rw [h₀, List.getElem?_nil] at htask
    cases htask
  | @snoc tr u v a e hrun hstep ih =>
    have hbegun : ∀ {old : Task}, u.tasks[i]? = some old → old.refresher = some caller →
        ∃ before during s, tr ++ [⟨u, a, e, v⟩] = before ++ during ∧
          Machines.Run c.step s₀ before s ∧ Machines.Run c.step s during v ∧
          s.tasks[i]? = some (.fetching caller []) := by
      intro old hold holdcaller
      obtain ⟨before, during, s, hsplit, hbefore, hduring, hs⟩ := ih hold holdcaller
      refine ⟨before, during ++ [⟨u, a, e, v⟩], s, ?_, hbefore, .snoc hduring hstep, hs⟩
      rw [hsplit, List.append_assoc]
    rcases (step_effect hstep).task_cases htask with
      ⟨hsame, _⟩ | ⟨_, hspawn, _⟩ | ⟨old, shared, hold, hturn, _⟩
    · exact hbegun hsame hcaller
    · rw [hspawn.refresher] at hcaller
      cases hcaller
    · rcases hturn.refresher hcaller with hbefore | hnew
      · exact hbegun hold hbefore
      · rw [hnew] at htask
        exact ⟨_, [], v, (List.append_nil _).symm, .snoc hrun hstep, .nil, htask⟩

end Begin

section Lineage

/-- A generation that one refresh in a run has published: its columns are the
lists that a single thread was sent, one for each tenant in order. -/
inductive PublishedIn (c : LokiCatalog) (tr : CatalogTrace) (snapshot : LokiCatalogSnapshot) : Prop
  | intro {before during after : CatalogTrace} {s : CatalogState}
      {x : Machines.Transition CatalogState Action Event} {i : ℕ} {caller : Caller} :
      tr = before ++ during ++ x :: after → s.tasks[i]? = some (.fetching caller []) →
      Machines.Run c.step s during x.before → x.event = .published i snapshot.version →
      (repliesTo i during).map Prod.fst = c.config.tenants.map (c.tenantCall caller) →
      snapshot.Carries c.config ((repliesTo i during).map Prod.snd) → PublishedIn c tr snapshot

structure Lineage (c : LokiCatalog) (tr : CatalogTrace) (t : CatalogState) : Prop where
  current : t.current = some (publicationsIn tr).length
  length_eq : t.heap.length = (publicationsIn tr).length + 1
  numbers : (publicationsIn tr).map Prod.snd = List.range' 1 (publicationsIn tr).length
  origin : ∀ g snapshot, t.heap[g]? = some snapshot → snapshot.version = g ∧
    (g = 0 ∧ snapshot.Carries c.config (c.config.tenants.map LokiTenant.labelColumns) ∨
      PublishedIn c tr snapshot)

variable {c : LokiCatalog} {s t : CatalogState} {i : ℕ} {tr : CatalogTrace} {e : Event}
  {snapshot : LokiCatalogSnapshot}

theorem PublishedIn.snoc (h : PublishedIn c tr snapshot)
    (y : Machines.Transition CatalogState Action Event) : PublishedIn c (tr ++ [y]) snapshot := by
  obtain @⟨before, during, after, _, x, _, _, hsplit, hs, hduring, hevent, hcalls, hcarries⟩ := h
  have hlonger : tr ++ [y] = before ++ during ++ x :: (after ++ [y]) := by
    rw [hsplit, List.append_assoc, List.cons_append]
  exact .intro hlonger hs hduring hevent hcalls hcarries

theorem Effect.publication_cases (h : Effect c s t e) :
    (e.publication = none ∧ t.current = s.current ∧ t.retired = s.retired ∧ t.heap = s.heap) ∨
      ∃ i caller snapshot, s.tasks[i]? = some (.publishing caller snapshot) ∧
        e = .published i s.heap.length ∧ t = (s.publish snapshot).put i (.refreshed caller none) := by
  cases h with
  | tick => exact Or.inl ⟨rfl, rfl, rfl, rfl⟩
  | spawn hspawn =>
    refine Or.inl ⟨?_, rfl, rfl, rfl⟩
    cases hspawn <;> rfl
  | turn hold hturn =>
    cases hturn with
    | publish caller snapshot => exact Or.inr ⟨_, caller, snapshot, hold, rfl, rfl⟩
    | move hmove =>
      refine Or.inl ⟨?_, rfl, rfl, rfl⟩
      cases hmove <;> rfl
    | _ => exact Or.inl ⟨rfl, rfl, rfl, rfl⟩

theorem LokiCatalog.Replied.calls_eq {caller : Caller} {fetched : List (List Str)}
    {replies : List (HttpCall × List Str)} (h : c.Replied caller fetched replies)
    (hlen : fetched.length = c.config.tenants.length) :
    replies.map Prod.fst = c.config.tenants.map (c.tenantCall caller) := by
  rw [h.calls, hlen, List.take_length]

theorem run_deref_current {nowNs : ℤ} {s₀ : CatalogState} (h : c.initializeState nowNs = some s₀)
    (hrun : Machines.Run c.step s₀ tr t) : ∃ generation, t.deref t.current = some generation := by
  obtain ⟨g, hg, hlt⟩ := (run_pinning h hrun).rooted t.current (Or.inl rfl)
  rw [CatalogState.deref, hg, Option.bind_some]
  exact ⟨_, List.getElem?_eq_getElem hlt⟩

theorem run_publishing {nowNs : ℤ} {s₀ : CatalogState} {caller : Caller}
    (h : c.initializeState nowNs = some s₀) (hrun : Machines.Run c.step s₀ tr t)
    (hpublishing : t.tasks[i]? = some (.publishing caller snapshot)) :
    ∃ before during s generation, tr = before ++ during ∧ Machines.Run c.step s during t ∧
      s.tasks[i]? = some (.fetching caller []) ∧ t.deref t.current = some generation ∧
      (repliesTo i during).map Prod.fst = c.config.tenants.map (c.tenantCall caller) ∧
      snapshot = snapshotOf c.config ((repliesTo i during).map Prod.snd) (generation.version + 1) := by
  obtain ⟨before, during, s, hsplit, hbefore, hduring, hs⟩ :=
    run_began (initializeState_tasks h) hrun hpublishing rfl
  obtain ⟨generation, hgen⟩ := run_deref_current h hbefore
  obtain ⟨task, htask, hP⟩ := run_progress h hbefore hgen hs hduring
  rw [hpublishing] at htask
  rw [← Option.some.inj htask] at hP
  obtain ⟨_, _, huntouched, fetched, hreplied, hlen, _, hsnapshot⟩ := hP
  have hlists : (repliesTo i during).map Prod.snd = fetched := hreplied.lists
  rw [← hlists] at hsnapshot
  exact ⟨before, during, s, generation, hsplit, hduring, hs, huntouched.deref.trans hgen,
    hreplied.calls_eq hlen, hsnapshot⟩

/-- Every generation is built from the tenants of the configuration. -/
theorem run_snapshotOf {nowNs : ℤ} {s₀ : CatalogState} (h : c.initializeState nowNs = some s₀)
    (hrun : Machines.Run c.step s₀ tr t) :
    ∀ snapshot ∈ t.heap, ∃ labels version, snapshot = snapshotOf c.config labels version := by
  induction hrun with
  | nil =>
    obtain ⟨snapshot, hbuild, heq⟩ := initializeState_eq h
    rw [heq]
    intro other hother
    rw [List.mem_singleton.mp hother]
    exact ⟨_, 0, eq_snapshotOf hbuild⟩
  | snoc hrun hstep ih =>
    rcases (step_effect hstep).publication_cases with
      ⟨_, _, _, hheap⟩ | ⟨i, caller, snapshot, hpublishing, _, heq⟩
    · rw [hheap]
      exact ih
    · obtain ⟨_, _, _, _, _, _, _, _, _, hsnapshot⟩ := run_publishing h hrun hpublishing
      intro other hother
      rw [heq] at hother
      rcases List.mem_append.mp hother with hother | hother
      · exact ih other hother
      · rw [List.mem_singleton.mp hother]
        exact ⟨_, _, hsnapshot⟩

theorem Lineage.keep {x : Machines.Transition CatalogState Action Event} (hL : Lineage c tr s)
    (hnone : x.event.publication = none) (hcurrent : t.current = s.current)
    (hheap : t.heap = s.heap) : Lineage c (tr ++ [x]) t := by
  have hpublications : publicationsIn (tr ++ [x]) = publicationsIn tr := by
    rw [publicationsIn, Machines.shown_snoc, hnone, Option.toList_none, List.append_nil]
    rfl
  refine ⟨?_, ?_, ?_, ?_⟩
  · rw [hpublications, hcurrent, hL.current]
  · rw [hpublications, hheap, hL.length_eq]
  · rw [hpublications, hL.numbers]
  · intro g snapshot hg
    rw [hheap] at hg
    obtain ⟨hversion, horigin⟩ := hL.origin g snapshot hg
    exact ⟨hversion, horigin.imp_right (fun hp ↦ hp.snoc x)⟩

theorem Lineage.publish {x : Machines.Transition CatalogState Action Event} {task : Task}
    (hL : Lineage c tr s) (hevent : x.event = .published i s.heap.length)
    (hversion : snapshot.version = s.heap.length) (hpublished : PublishedIn c (tr ++ [x]) snapshot) :
    Lineage c (tr ++ [x]) ((s.publish snapshot).put i task) := by
  have hpublications : publicationsIn (tr ++ [x]) = publicationsIn tr ++ [(i, s.heap.length)] := by
    rw [publicationsIn, Machines.shown_snoc, hevent]
    rfl
  have hheap : ((s.publish snapshot).put i task).heap = s.heap ++ [snapshot] := rfl
  have hcurrent : ((s.publish snapshot).put i task).current = some s.heap.length := rfl
  refine ⟨?_, ?_, ?_, ?_⟩
  · rw [hpublications, hcurrent, hL.length_eq, List.length_append]
    rfl
  · rw [hpublications, hheap, List.length_append, List.length_append, hL.length_eq]
    rfl
  · rw [hpublications, List.map_append, hL.numbers, List.length_append, List.length_singleton,
      List.range'_1_concat, Nat.add_comm 1, ← hL.length_eq]
    rfl
  · intro g other hg
    rw [hheap] at hg
    rcases Nat.lt_trichotomy g s.heap.length with hlt | hlast | hgt
    · rw [List.getElem?_append_left hlt] at hg
      obtain ⟨hother, horigin⟩ := hL.origin g other hg
      exact ⟨hother, horigin.imp_right (fun hp ↦ hp.snoc x)⟩
    · rw [hlast, List.getElem?_concat_length] at hg
      rw [← Option.some.inj hg, hlast]
      exact ⟨hversion, Or.inr hpublished⟩
    · rw [List.getElem?_eq_none (by rw [List.length_append, List.length_singleton]; omega)] at hg
      cases hg

theorem Lineage.snoc {nowNs : ℤ} {s₀ : CatalogState} {a : Action}
    (h : c.initializeState nowNs = some s₀) (hrun : Machines.Run c.step s₀ tr s)
    (hL : Lineage c tr s) (heffect : Effect c s t e) : Lineage c (tr ++ [⟨s, a, e, t⟩]) t := by
  rcases heffect.publication_cases with
    ⟨hnone, hcurrent, _, hheap⟩ | ⟨i, caller, snapshot, hpublishing, hevent, heq⟩
  · exact hL.keep hnone hcurrent hheap
  · obtain ⟨before, during, u, generation, hsplit, hduring, hu, hgen, hcalls, hsnapshot⟩ :=
      run_publishing h hrun hpublishing
    have hlength := congrArg List.length hcalls
    have hcarries : snapshot.Carries c.config ((repliesTo i during).map Prod.snd) := by
      rw [hsnapshot]
      apply snapshotOf_carries
      simpa using hlength
    have hversion : snapshot.version = s.heap.length := by
      rw [CatalogState.deref, hL.current, Option.bind_some] at hgen
      rw [hsnapshot, snapshotOf, (hL.origin _ _ hgen).1, hL.length_eq]
    have hpublished : PublishedIn c (tr ++ [⟨s, a, e, t⟩]) snapshot := by
      rw [hsplit]
      apply PublishedIn.intro rfl hu hduring _ hcalls hcarries
      rw [hversion]
      exact hevent
    rw [heq] at hpublished ⊢
    exact hL.publish hevent hversion hpublished

theorem run_lineage {nowNs : ℤ} {s₀ : CatalogState} (h : c.initializeState nowNs = some s₀)
    (hrun : Machines.Run c.step s₀ tr t) : Lineage c tr t := by
  induction hrun with
  | nil =>
    obtain ⟨snapshot, hbuild, heq⟩ := initializeState_eq h
    rw [heq]
    refine ⟨rfl, rfl, rfl, ?_⟩
    intro g other hg
    cases g with
    | zero =>
      rw [← Option.some.inj hg, eq_snapshotOf hbuild]
      exact ⟨rfl, Or.inl ⟨rfl, snapshotOf_carries (List.length_map _) 0⟩⟩
    | succ g => cases hg
  | snoc hrun hstep ih => exact ih.snoc h hrun (step_effect hstep)

end Lineage

section Pinned

def Task.refreshes : Task → Bool
  | .starting | .pinning | .pinned _ | .live _ | .looking _ _ _ | .finished => false
  | _ => true

variable {c : LokiCatalog} {s t shared : CatalogState} {i : ℕ} {tr : CatalogTrace} {e : Event}
  {old new : Task}

theorem Turn.refreshes (hpinned : c.config.labelsPinned = true)
    (h : Turn c s i old new shared e) (hold : old.refreshes = false) : new.refreshes = false := by
  cases h with
  | move hmove =>
    cases hmove with
    | look hfree => exact absurd hpinned hfree
    | skip | enter => rfl
    | _ => cases hold
  | pin | close | answer => rfl
  | _ => cases hold

theorem Effect.refreshes (hpinned : c.config.labelsPinned = true) (h : Effect c s t e)
    (hs : ∀ (i : ℕ) (task : Task), s.tasks[i]? = some task → task.refreshes = false)
    (i : ℕ) (task : Task)
    (ht : t.tasks[i]? = some task) : task.refreshes = false := by
  rcases h.task_cases ht with ⟨hsame, _⟩ | ⟨_, hspawn, _⟩ | ⟨old, shared, hold, hturn, _⟩
  · exact hs i task hsame
  · cases hspawn with
    | refresh hfree => exact absurd hpinned hfree
    | _ => rfl
  · exact hturn.refreshes hpinned (hs i old hold)

/-- A catalog that was attached with explicit labels never publishes. -/
theorem run_pinned {nowNs : ℤ} {s₀ : CatalogState} (hpinned : c.config.labelsPinned = true)
    (h : c.initializeState nowNs = some s₀) (hrun : Machines.Run c.step s₀ tr t) :
    publicationsIn tr = [] := by
  have hidle : ∀ {tr t}, Machines.Run c.step s₀ tr t →
      ∀ (i : ℕ) (task : Task), t.tasks[i]? = some task → task.refreshes = false := by
    intro tr t hrun
    apply hrun.invariant (fun _ _ _ _ hs hstep ↦ (step_effect hstep).refreshes hpinned hs)
    intro i task htask
    rw [initializeState_tasks h, List.getElem?_nil] at htask
    cases htask
  induction hrun with
  | nil => rfl
  | @snoc tr u v a e hrun hstep ih =>
    rw [publicationsIn, Machines.shown_snoc]
    rcases (step_effect hstep).publication_cases with ⟨hnone, _⟩ | ⟨i, _, _, hpublishing, _⟩
    · rw [hnone, Option.toList_none, List.append_nil]
      exact ih
    · cases hidle hrun i _ hpublishing

end Pinned

section Refreshes

/-- What a refresh that is over has done, by what its requests were answered. -/
structure AllOrNothing (c : LokiCatalog) (i : ℕ) (caller : Caller) (s : CatalogState)
    (generation : LokiCatalogSnapshot) (v : RefreshView) : Prop where
  failed : v.failures ≠ [] → v.Untouched s
  fetched : v.failures = [] →
    v.replies.map Prod.fst = c.config.tenants.map (c.tenantCall caller)
  unchanged : v.failures = [] → v.replies.map Prod.snd = generation.labelColumns → v.Untouched s
  changed : v.failures = [] → v.replies.map Prod.snd ≠ generation.labelColumns →
    v.publications = [(i, s.heap.length)] ∧ v.current = some s.heap.length ∧
      ∃ snapshot, v.heap = s.heap ++ [snapshot] ∧ snapshot.version = generation.version + 1 ∧
        snapshot.Carries c.config (v.replies.map Prod.snd)

variable {c : LokiCatalog} {t : CatalogState} {tr : CatalogTrace}

theorem Outcome.allOrNothing {i : ℕ} {caller : Caller} {s : CatalogState}
    {generation : LokiCatalogSnapshot} {v : RefreshView} {error : Option Str}
    (h : Outcome c i caller s generation v error) : AllOrNothing c i caller s generation v := by
  cases h with
  | failed message hfailures _ huntouched =>
    have hfailed : v.failures ≠ [] := by
      rw [hfailures]
      exact List.cons_ne_nil _ _
    exact ⟨fun _ ↦ huntouched, fun h ↦ absurd h hfailed, fun h ↦ absurd h hfailed,
      fun h ↦ absurd h hfailed⟩
  | unchanged hfailures hreplied hlen huntouched =>
    exact ⟨fun h ↦ absurd hfailures h, fun _ ↦ hreplied.calls_eq hlen, fun _ _ ↦ huntouched,
      fun _ h ↦ absurd hreplied.lists h⟩
  | @published fetched hfailures hreplied hlen hne hpublications hcurrent hheap =>
    refine ⟨fun h ↦ absurd hfailures h, fun _ ↦ hreplied.calls_eq hlen, ?_, ?_⟩
    · intro _ heq
      rw [hreplied.lists] at heq
      exact absurd heq.symm hne
    · intro _ _
      rw [hreplied.lists]
      exact ⟨hpublications, hcurrent, _, hheap, rfl, snapshotOf_carries hlen _⟩

/-- In every run, a refresh publishes one whole generation or nothing at all;
the generations are numbered without gaps, and each has the columns of a single
attach or refresh. -/
theorem refresh_all_or_nothing {nowNs : ℤ} {s₀ : CatalogState}
    (h : c.initializeState nowNs = some s₀) (hrun : Machines.Run c.step s₀ tr t) :
    (∀ (before during : CatalogTrace) (s : CatalogState) (i : ℕ) (caller caller' : Caller)
        (error : Option Str), tr = before ++ during → Machines.Run c.step s₀ before s →
      Machines.Run c.step s during t → s.tasks[i]? = some (.fetching caller []) →
      t.tasks[i]? = some (.refreshed caller' error) →
      ∃ generation, s.deref s.current = some generation ∧
        AllOrNothing c i caller s generation (refreshView i during t)) ∧
      (∀ (g : ℕ) (snapshot : LokiCatalogSnapshot), t.heap[g]? = some snapshot →
        snapshot.version = g ∧
          (g = 0 ∧ snapshot.Carries c.config (c.config.tenants.map LokiTenant.labelColumns) ∨
            PublishedIn c tr snapshot)) ∧
      (publicationsIn tr).map Prod.snd = List.range' 1 (publicationsIn tr).length ∧
      t.current = some (publicationsIn tr).length ∧
      (c.config.labelsPinned = true → publicationsIn tr = [] ∧
        ∃ snapshot, t.deref t.current = some snapshot ∧ snapshot.version = 0 ∧
          snapshot.Carries c.config (c.config.tenants.map LokiTenant.labelColumns)) := by
  have hL := run_lineage h hrun
  refine ⟨?_, hL.origin, hL.numbers, hL.current, ?_⟩
  · intro before during s i caller caller' error _ hbefore hduring hs ht
    obtain ⟨generation, hgen⟩ := run_deref_current h hbefore
    obtain ⟨task, htask, hP⟩ := run_progress h hbefore hgen hs hduring
    rw [ht] at htask
    rw [← Option.some.inj htask] at hP
    exact ⟨generation, hgen, hP.2.allOrNothing⟩
  · intro hpinned
    have hnone := run_pinned hpinned h hrun
    obtain ⟨generation, hgen⟩ := run_deref_current h hrun
    refine ⟨hnone, generation, hgen, ?_⟩
    rw [CatalogState.deref, hL.current, hnone, Option.bind_some] at hgen
    obtain ⟨hversion, hzero | hpublished⟩ := hL.origin _ _ hgen
    · exact ⟨hversion, hzero.2⟩
    · obtain @⟨before, during, after, _, x, i, _, hsplit, _, _, hevent, _, _⟩ := hpublished
      have hmem : (i, generation.version) ∈ publicationsIn tr := by
        apply List.mem_filterMap.mpr
        refine ⟨x, ?_, ?_⟩
        · rw [hsplit]
          exact List.mem_append_right _ List.mem_cons_self
        · rw [hevent]
          rfl
      rw [hnone] at hmem
      cases hmem

theorem refresh_all_or_nothing_sample : ∃ s₀ tr t, appLabels.initializeState 0 = some s₀ ∧
    Machines.Run appLabels.step s₀ tr t ∧ publicationsIn tr = [(1, 1)] ∧ t.current = some 1 ∧
      ∃ snapshot, t.heap[1]? = some snapshot ∧ snapshot.version = 1 ∧
        PublishedIn appLabels tr snapshot := by
  obtain ⟨s₀, tr, t, hs₀, hrun, heq, _, _⟩ := sampleRun_run
  have hpublications : sampleRun.map (fun x ↦ publicationsIn x.1) = some [(1, 1)] := by
    decide +kernel
  have hheap : sampleRun.map (fun x ↦ x.2.heap.length) = some 2 := by decide +kernel
  rw [heq] at hpublications hheap
  have hone := Option.some.inj hpublications
  obtain ⟨_, horigin, _, hcurrent, _⟩ := refresh_all_or_nothing hs₀ hrun
  have hlt : 1 < t.heap.length := by
    rw [show t.heap.length = 2 from Option.some.inj hheap]
    exact Nat.one_lt_two
  obtain ⟨hversion, hzero | hpublished⟩ := horigin 1 _ (List.getElem?_eq_getElem hlt)
  · exact absurd hzero.1 Nat.one_ne_zero
  · refine ⟨s₀, tr, t, hs₀, hrun, hone, ?_, _, List.getElem?_eq_getElem hlt, hversion, hpublished⟩
    rw [hcurrent, show publicationsIn tr = [(1, 1)] from hone]
    rfl

end Refreshes

end DuckdbLoki
