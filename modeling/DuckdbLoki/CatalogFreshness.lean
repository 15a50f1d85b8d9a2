import DuckdbLoki.CatalogGenerations

namespace DuckdbLoki

open LokiCatalog

section Begin

variable {c : LokiCatalog} {s t u : CatalogState} {i : ℕ} {caller : Caller} {tr : CatalogTrace}

theorem Task.inside_of_refresher {task : Task} (h : task.refresher = some caller) :
    task.inside = true := by
  cases task with
  | fetching | building | publishing => rfl
  | _ => cases h

theorem run_began_since (hrun : Machines.Run c.step s tr t) {task : Task}
    (htask : t.tasks[i]? = some task) (hcaller : task.refresher = some caller) :
    (∃ old, s.tasks[i]? = some old ∧ old.refresher = some caller) ∨
      ∃ before during u, tr = before ++ during ∧ Machines.Run c.step s before u ∧
        Machines.Run c.step u during t ∧ u.tasks[i]? = some (.fetching caller []) := by
  induction hrun generalizing task with
  | nil => exact Or.inl ⟨task, htask, hcaller⟩
  | @snoc tr v w a e hrun hstep ih =>
    have hlonger : ∀ {old : Task}, v.tasks[i]? = some old → old.refresher = some caller →
        (∃ old, s.tasks[i]? = some old ∧ old.refresher = some caller) ∨
          ∃ before during u, tr ++ [⟨v, a, e, w⟩] = before ++ during ∧
            Machines.Run c.step s before u ∧ Machines.Run c.step u during w ∧
            u.tasks[i]? = some (.fetching caller []) := by
      intro old hold holdcaller
      rcases ih hold holdcaller with hbegun | ⟨before, during, u, hsplit, hbefore, hduring, hu⟩
      · exact Or.inl hbegun
      · refine Or.inr ⟨before, during ++ [⟨v, a, e, w⟩], u, ?_, hbefore, .snoc hduring hstep, hu⟩
        rw [hsplit, List.append_assoc]
    rcases (step_effect hstep).task_cases htask with
      ⟨hsame, _⟩ | ⟨_, hspawn, _⟩ | ⟨old, shared, hold, hturn, _⟩
    · exact hlonger hsame hcaller
    · rw [hspawn.refresher] at hcaller
      cases hcaller
    · rcases hturn.refresher hcaller with hbefore | hnew
      · exact hlonger hold hbefore
      · rw [hnew] at htask
        exact Or.inr ⟨_, [], w, (List.append_nil _).symm, .snoc hrun hstep, .nil, htask⟩

end Begin

section Pinned

variable {c : LokiCatalog} {t : CatalogState} {tr : CatalogTrace} {i k : ℕ} {p p' : SnapshotPtr}
  {x y : Machines.Transition CatalogState Action Event} {snapshot : LokiCatalogSnapshot}
  {query : CatalogQuery} {answer : Except Str (List LokiSchemaEntry)}

theorem Isolated.answer_of_pinned (h : Isolated c tr t) (hx : x ∈ tr)
    (hpinned : x.event = .pinned i p) (hderef : t.deref p = some snapshot) (hy : y ∈ tr)
    (hanswer : y.event = .returned k (some i) p' query answer) :
    answer = c.answer snapshot query := by
  obtain ⟨hpin, _⟩ := h.pins x hx i p hpinned
  obtain ⟨hpin', other, hother, hanswers⟩ := h.answers y hy k i p' query answer hanswer
  obtain rfl := Option.some.inj (hpin.symm.trans hpin')
  obtain rfl := Option.some.inj (hderef.symm.trans hother)
  exact hanswers

end Pinned

section Fresh

variable {c : LokiCatalog} {s₀ s t u v : CatalogState} {i j : ℕ} {caller caller' : Caller}
  {before during after : CatalogTrace} {snapshot : LokiCatalogSnapshot} {nowNs : ℤ}

/-- A generation with the columns that the refresh by thread `i` was sent, or
that a refresh which began later has published. -/
def FetchedSince (c : LokiCatalog) (i : ℕ) (during after : CatalogTrace)
    (snapshot : LokiCatalogSnapshot) : Prop :=
  snapshot.Carries c.config ((repliesTo i during).map Prod.snd) ∨ PublishedIn c after snapshot

theorem FetchedSince.append (h : FetchedSince c i during after snapshot) (later : CatalogTrace) :
    FetchedSince c i during (after ++ later) snapshot := by
  rcases h with hcarries | hpublished
  · exact Or.inl hcarries
  · obtain @⟨first, middle, last, _, x, _, _, hsplit, hs, hmiddle, hevent, hcalls, hcarries⟩ :=
      hpublished
    have hlonger : after ++ later = first ++ middle ++ x :: (last ++ later) := by
      rw [hsplit, List.append_assoc, List.cons_append]
    exact Or.inr (.intro hlonger hs hmiddle hevent hcalls hcarries)

theorem publishing_carries (h : c.initializeState nowNs = some s₀)
    (hbefore : Machines.Run c.step s₀ before s) (hs : s.tasks[i]? = some (.fetching caller []))
    (hduring : Machines.Run c.step s during u)
    (hu : u.tasks[i]? = some (.publishing caller' snapshot)) :
    (repliesTo i during).map Prod.fst = c.config.tenants.map (c.tenantCall caller) ∧
      snapshot.Carries c.config ((repliesTo i during).map Prod.snd) := by
  obtain ⟨generation, hgen⟩ := run_deref_current h hbefore
  obtain ⟨task, htask, hP⟩ := run_progress h hbefore hgen hs hduring
  rw [hu] at htask
  rw [← Option.some.inj htask] at hP
  obtain ⟨_, _, _, fetched, hreplied, hlen, _, hsnapshot⟩ := hP
  have hlists : (repliesTo i during).map Prod.snd = fetched := hreplied.lists
  rw [hlists, hsnapshot]
  exact ⟨hreplied.calls_eq hlen, snapshotOf_carries hlen _⟩

/-- A thread that publishes after a refresh has succeeded began its own after
that: no two refresh together. -/
theorem publishes_since (h : c.initializeState nowNs = some s₀)
    (hrun : Machines.Run c.step s₀ before u) (hu : u.tasks[i]? = some (.refreshed caller none))
    (hafter : Machines.Run c.step u after v)
    (hv : v.tasks[j]? = some (.publishing caller' snapshot)) :
    ∃ first middle w, after = first ++ middle ∧ w.tasks[j]? = some (.fetching caller' []) ∧
      Machines.Run c.step w middle v ∧
      (repliesTo j middle).map Prod.fst = c.config.tenants.map (c.tenantCall caller') ∧
      snapshot.Carries c.config ((repliesTo j middle).map Prod.snd) := by
  rcases run_began_since hafter hv rfl with
    ⟨old, hold, hrefresher⟩ | ⟨first, middle, w, hsplit, hfirst, hmiddle, hw⟩
  · have heq := (run_locked h hrun).exclusive hold hu (Task.inside_of_refresher hrefresher) rfl
    rw [heq, hu] at hold
    rw [← Option.some.inj hold] at hrefresher
    cases hrefresher
  · obtain ⟨hcalls, hcarries⟩ := publishing_carries h (hrun.trans hfirst) hw hmiddle hv
    exact ⟨first, middle, w, hsplit, hw, hmiddle, hcalls, hcarries⟩

variable (h : c.initializeState nowNs = some s₀) (hbefore : Machines.Run c.step s₀ before s)
  (hs : s.tasks[i]? = some (.fetching caller []))

include h hbefore hs

/-- Right after a refresh has succeeded, every tenant has been asked, and the
current generation carries the answers, also where nothing was published. -/
theorem refreshed_carries (hduring : Machines.Run c.step s during u)
    (hu : u.tasks[i]? = some (.refreshed caller' none)) :
    (repliesTo i during).map Prod.fst = c.config.tenants.map (c.tenantCall caller) ∧
      ∃ snapshot, u.deref u.current = some snapshot ∧
        snapshot.Carries c.config ((repliesTo i during).map Prod.snd) := by
  obtain ⟨generation, hgen⟩ := run_deref_current h hbefore
  obtain ⟨task, htask, hP⟩ := run_progress h hbefore hgen hs hduring
  rw [hu] at htask
  rw [← Option.some.inj htask] at hP
  obtain ⟨_, houtcome⟩ := hP
  cases houtcome with
  | unchanged _ hreplied hlen huntouched =>
    have hlists : (repliesTo i during).map Prod.snd = generation.labelColumns := hreplied.lists
    have hmem : generation ∈ s.heap := by
      obtain ⟨_, _, hget⟩ := Option.bind_eq_some_iff.mp hgen
      exact List.mem_of_getElem? hget
    obtain ⟨labels, version, hof⟩ := run_snapshotOf h hbefore generation hmem
    refine ⟨hreplied.calls_eq hlen, generation, huntouched.deref.trans hgen, ?_⟩
    rw [hlists]
    rw [hof] at hlen ⊢
    exact snapshotOf_carries hlen version
  | @published fetched _ hreplied hlen _ _ hcurrent hheap =>
    have hlists : (repliesTo i during).map Prod.snd = fetched := hreplied.lists
    rw [hlists]
    refine ⟨hreplied.calls_eq hlen, _, ?_, snapshotOf_carries hlen (generation.version + 1)⟩
    change u.current = some s.heap.length at hcurrent
    change u.heap = _ at hheap
    rw [CatalogState.deref, hcurrent, Option.bind_some, hheap]
    exact List.getElem?_concat_length

theorem current_fetchedSince (hduring : Machines.Run c.step s during u)
    (hu : u.tasks[i]? = some (.refreshed caller none)) (hafter : Machines.Run c.step u after t) :
    ∃ snapshot, t.deref t.current = some snapshot ∧ FetchedSince c i during after snapshot := by
  induction hafter with
  | nil =>
    obtain ⟨_, snapshot, hcurrent, hcarries⟩ := refreshed_carries h hbefore hs hduring hu
    exact ⟨snapshot, hcurrent, Or.inl hcarries⟩
  | @snoc after v w a e hafter hstep ih =>
    rcases (step_effect hstep).publication_cases with
      ⟨_, hcurrent, _, hheap⟩ | ⟨j, caller', snapshot, hpublishing, hevent, heq⟩
    · obtain ⟨snapshot, hgen, hsince⟩ := ih
      refine ⟨snapshot, ?_, hsince.append _⟩
      rw [CatalogState.deref, hcurrent, hheap]
      exact hgen
    · obtain ⟨first, middle, x, hsplit, hx, hmiddle, hcalls, hcarries⟩ :=
        publishes_since h (hbefore.trans hduring) hu hafter hpublishing
      have hget : w.heap[v.heap.length]? = some snapshot := by
        rw [heq]
        exact List.getElem?_concat_length
      have hlineage := run_lineage h (((hbefore.trans hduring).trans hafter).snoc hstep)
      have hversion : e = .published j snapshot.version := by
        rw [hevent, (hlineage.origin _ _ hget).1]
      refine ⟨snapshot, ?_, Or.inr ?_⟩
      · rw [CatalogState.deref, heq]
        exact List.getElem?_concat_length
      · rw [hsplit]
        exact .intro rfl hx hmiddle hversion hcalls hcarries

theorem pinned_fetchedSince (hduring : Machines.Run c.step s during u)
    (hu : u.tasks[i]? = some (.refreshed caller none)) (hafter : Machines.Run c.step u after t)
    {x : Machines.Transition CatalogState Action Event} (hx : x ∈ after) {p : SnapshotPtr}
    (hevent : x.event = .pinned j p) :
    ∃ snapshot, t.deref p = some snapshot ∧ FetchedSince c i during after snapshot := by
  have hisolated := run_isolated h ((hbefore.trans hduring).trans hafter)
  obtain ⟨_, hcurrent⟩ := hisolated.pins x (List.mem_append_right _ hx) j p hevent
  obtain ⟨first, last, hsplit⟩ := List.append_of_mem hx
  rw [hsplit] at hafter ⊢
  obtain ⟨hfirst, hvalid, hlast⟩ := hafter.around
  obtain ⟨snapshot, hgen, hsince⟩ := current_fetchedSince h hbefore hs hduring hu hfirst
  rw [hcurrent] at hgen
  have hheap : x.before.heap <+: t.heap := by
    have hstep := (step_effect hvalid).heap
    refine hlast.invariant (I := fun v ↦ x.before.heap <+: v.heap) ?_ hstep
    exact fun _ _ _ _ hv hnext ↦ hv.trans (step_effect hnext).heap
  exact ⟨snapshot, deref_of_prefix hheap hgen, hsince.append _⟩

/-- A transaction that pins its generation after a refresh has succeeded, and
all that it looks up, has the columns which that refresh was sent, or those of a
refresh that began later. -/
theorem refresh_is_seen (hduring : Machines.Run c.step s during u)
    (hu : u.tasks[i]? = some (.refreshed caller none)) (hafter : Machines.Run c.step u after t) :
    ∀ x ∈ after, ∀ j p, x.event = .pinned j p →
      ∃ snapshot, t.deref p = some snapshot ∧ FetchedSince c i during after snapshot ∧
        ∀ y ∈ after, ∀ k p' query answer, y.event = .returned k (some j) p' query answer →
          answer = c.answer snapshot query := by
  intro x hx j p hevent
  obtain ⟨snapshot, hderef, hsince⟩ :=
    pinned_fetchedSince h hbefore hs hduring hu hafter hx hevent
  have hisolated := run_isolated h ((hbefore.trans hduring).trans hafter)
  refine ⟨snapshot, hderef, hsince, ?_⟩
  intro y hy k p' query answer hanswer
  exact hisolated.answer_of_pinned (List.mem_append_right _ hx) hevent hderef
    (List.mem_append_right _ hy) hanswer

end Fresh

section Sample

def beforeRefresh : List Action := [.startTransaction, .advance 0, .refreshLabels, .advance 1]

def duringRefresh : List Action :=
  [.reply 1 labelsResponse, .reply 1 labelsResponse, .advance 1, .advance 1, .advance 1]

def afterRefresh : List Action := [.startTransaction, .advance 2, .advance 2, .advance 2]

theorem event_of_pin {e : Event} {i : ℕ} {p : SnapshotPtr} (h : e.pin i = some p) :
    e = .pinned i p := by
  cases e with
  | pinned j q =>
    obtain ⟨hj, hq⟩ := Option.ite_none_right_eq_some.mp h
    rw [hj, Option.some.inj hq]
  | _ => cases h

def refreshRun : Option (CatalogState × (CatalogTrace × CatalogState) ×
    (CatalogTrace × CatalogState) × (CatalogTrace × CatalogState)) := do
  let s₀ ← appLabels.initializeState 0
  let first ← Machines.exec appLabels.step s₀ beforeRefresh
  let second ← Machines.exec appLabels.step first.2 duringRefresh
  let third ← Machines.exec appLabels.step second.2 afterRefresh
  some (s₀, first, second, third)

theorem refresh_is_seen_sample : ∃ s₀ before s during u after t,
    appLabels.initializeState 0 = some s₀ ∧ Machines.Run appLabels.step s₀ before s ∧
      Machines.Run appLabels.step s during u ∧ Machines.Run appLabels.step u after t ∧
      ∃ snapshot, t.deref (some 1) = some snapshot ∧
        FetchedSince appLabels 1 during after snapshot := by
  have hsome : refreshRun.any (fun x ↦
      x.2.1.2.tasks[1]? = some (.fetching .pragma []) ∧
        x.2.2.1.2.tasks[1]? = some (.refreshed .pragma none) ∧
        x.2.2.2.1.any (fun y ↦ y.event.pin 2 = some (some 1))) = true := by decide +kernel
  obtain ⟨⟨s₀, ⟨before, s⟩, ⟨during, u⟩, ⟨after, t⟩⟩, hrun, hfacts⟩ :=
    (Option.any_eq_true _ _).mp hsome
  obtain ⟨hs, hu, hpin⟩ := of_decide_eq_true hfacts
  obtain ⟨x, hx, hevent⟩ := List.any_eq_true.mp hpin
  have hpinned := event_of_pin (of_decide_eq_true hevent)
  unfold refreshRun at hrun
  simp only [Option.bind_eq_bind, Option.bind_eq_some_iff, Option.some_inj, Prod.mk.injEq] at hrun
  obtain ⟨_, hs₀, _, hbefore, _, hduring, _, hafter, rfl, rfl, rfl, rfl⟩ := hrun
  obtain ⟨snapshot, hderef, hsince, _⟩ := refresh_is_seen hs₀ (Machines.exec_run hbefore) hs
    (Machines.exec_run hduring) hu (Machines.exec_run hafter) x hx 2 (some 1) hpinned
  exact ⟨_, _, _, _, _, _, _, hs₀, Machines.exec_run hbefore, Machines.exec_run hduring,
    Machines.exec_run hafter, snapshot, hderef, hsince⟩

end Sample

end DuckdbLoki
