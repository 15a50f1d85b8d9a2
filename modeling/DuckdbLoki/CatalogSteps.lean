import DuckdbLoki.CatalogMachine

namespace DuckdbLoki

open LokiCatalog

section Moves

variable (c : LokiCatalog) (s : CatalogState) (i : ℕ)

/-- The steps of a thread that change nothing but its own place. -/
inductive Move : Task → Task → Event → Prop
  | skip : c.config.labelsPinned = true ∨ c.config.labelCacheTtlNs = 0 →
      Move .starting .pinning .silent
  | look : ¬ c.config.labelsPinned = true → Move .starting (.checking s.clock) .silent
  | early (nowNs : ℤ) : Move (.checking nowNs) .pinning .silent
  | due (nowNs : ℤ) : Move (.checking nowNs) (.locking (.ttl nowNs)) .silent
  | busy (nowNs : ℤ) : Move (.locking (.ttl nowNs)) .pinning .silent
  | overtaken (nowNs : ℤ) : Move (.rechecking nowNs) (.releasing (.ttl nowNs) none) .silent
  | attempt {nowNs : ℤ} : s.nextCheckNs ≤ nowNs →
      Move (.rechecking nowNs) (.fetching (.ttl nowNs) []) (.attempted i nowNs)
  | reply {caller : Caller} {fetched : List (List Str)} {tenant : LokiTenant}
      {response : HttpResponse} {names : List Str} :
      c.config.tenants[fetched.length]? = some tenant →
      fetchLokiLabelNames c.read response = .ok names →
      Move (.fetching caller fetched) (.fetching caller (fetched ++ [names]))
        (.replied i (c.tenantCall caller tenant) names)
  | failFetch {caller : Caller} {fetched : List (List Str)} {message : Str} :
      fetched.length < c.config.tenants.length →
      Move (.fetching caller fetched) (.refreshed caller (some message)) (.failed i message)
  | unchanged {caller : Caller} {fetched : List (List Str)} {current : LokiCatalogSnapshot} :
      c.config.tenants.length ≤ fetched.length → s.deref s.current = some current →
      current.labelColumns = fetched →
      Move (.fetching caller fetched) (.refreshed caller none) (.unchanged i)
  | changed {caller : Caller} {fetched : List (List Str)} {nextVersion : ℕ} :
      c.config.tenants.length ≤ fetched.length →
      (∀ current, s.deref s.current = some current →
        current.labelColumns ≠ fetched ∧ nextVersion = current.version + 1) →
      Move (.fetching caller fetched) (.building caller fetched nextVersion) .silent
  | built {caller : Caller} {fetched : List (List Str)} {nextVersion : ℕ}
      {snapshot : LokiCatalogSnapshot} :
      buildSnapshot c.config fetched nextVersion = .ok snapshot →
      Move (.building caller fetched nextVersion) (.publishing caller snapshot) .silent
  | failBuild {caller : Caller} {fetched : List (List Str)} {nextVersion : ℕ} {message : Str} :
      buildSnapshot c.config fetched nextVersion = .error message →
      Move (.building caller fetched nextVersion) (.refreshed caller (some message))
        (.failed i message)
  | stamp : Move (.refreshed .pragma none) (.storing s.clock) .silent
  | rethrow (message : Str) :
      Move (.refreshed .pragma (some message)) (.releasing .pragma (some message)) .silent
  | enter (snapshot : SnapshotPtr) : Move (.pinned snapshot) (.live snapshot) .silent

variable {c s i}

theorem Move.of_eq {old new new' : Task} {e e' : Event} (hmove : Move c s i old new e)
    (h : some (new, e) = some (new', e')) : Move c s i old new' e' := by
  obtain ⟨hnew, he⟩ := Prod.mk.inj (Option.some.inj h)
  rw [← hnew, ← he]
  exact hmove

theorem move_of_receive {response : HttpResponse} {old new : Task} {e : Event}
    (h : c.receive i response old = some (new, e)) : Move c s i old new e := by
  cases old with
  | fetching caller fetched =>
    rw [receive] at h
    split at h
    · cases h
    · rename_i tenant htenant
      split at h
      · rename_i names hnames
        exact Move.of_eq (.reply htenant hnames) h
      · exact Move.of_eq (.failFetch (List.getElem?_eq_some_iff.mp htenant).1) h
  | _ => cases h

theorem move_of_compareFetched {caller : Caller} {fetched : List (List Str)} {new : Task}
    {e : Event}
    (hlen : c.config.tenants.length ≤ fetched.length)
    (h : compareFetched s i caller fetched = some (new, e)) :
    Move c s i (.fetching caller fetched) new e := by
  unfold compareFetched at h
  split at h
  · rename_i hnull
    obtain ⟨hnew, he⟩ := Prod.mk.inj (Option.some.inj h)
    rw [← hnew, ← he]
    apply Move.changed hlen
    intro current hcurrent
    rw [hnull] at hcurrent
    cases hcurrent
  · rename_i g hg
    obtain ⟨current, hcurrent, h⟩ := Option.map_eq_some_iff.mp h
    have hderef : s.deref s.current = some current := by
      rw [hg]
      exact hcurrent
    split_ifs at h with heq
    · obtain ⟨hnew, he⟩ := Prod.mk.inj h
      rw [← hnew, ← he]
      exact .unchanged hlen hderef heq
    · obtain ⟨hnew, he⟩ := Prod.mk.inj h
      rw [← hnew, ← he]
      apply Move.changed hlen
      intro other hother
      rw [hderef] at hother
      rw [← Option.some.inj hother]
      exact ⟨heq, rfl⟩

theorem move_of_think {old new : Task} {e : Event} (h : c.think s i old = some (new, e)) :
    Move c s i old new e := by
  cases old with
  | starting =>
    rw [think] at h
    split_ifs at h with hskip
    · exact Move.of_eq (.skip hskip) h
    · exact Move.of_eq (.look (fun hp ↦ hskip (Or.inl hp))) h
  | checking nowNs =>
    rw [think] at h
    split_ifs at h
    · exact Move.of_eq (.early nowNs) h
    · exact Move.of_eq (.due nowNs) h
  | rechecking nowNs =>
    rw [think] at h
    split_ifs at h with hlt
    · exact Move.of_eq (.overtaken nowNs) h
    · exact Move.of_eq (.attempt (not_lt.mp hlt)) h
  | fetching caller fetched =>
    rw [think] at h
    split_ifs at h with hlt
    exact move_of_compareFetched (not_lt.mp hlt) h
  | building caller fetched nextVersion =>
    rw [think] at h
    split at h
    · rename_i snapshot hbuild
      exact Move.of_eq (.built hbuild) h
    · rename_i message hbuild
      exact Move.of_eq (.failBuild hbuild) h
  | locking caller =>
    cases caller with
    | ttl nowNs => exact Move.of_eq (.busy nowNs) h
    | pragma => cases h
  | refreshed caller error =>
    cases caller with
    | ttl nowNs => cases h
    | pragma =>
      cases error with
      | none => exact Move.of_eq .stamp h
      | some message => exact Move.of_eq (.rethrow message) h
  | pinned snapshot => exact Move.of_eq (.enter snapshot) h
  | _ => cases h

end Moves

section Effects

variable (c : LokiCatalog) (s : CatalogState)

inductive Spawned : Task → Event → Prop
  | transaction : Spawned .starting .silent
  | refresh : ¬ c.config.labelsPinned = true → Spawned (.locking .pragma) .silent
  | refuse : c.config.labelsPinned = true →
      Spawned .finished (.errored s.tasks.length c.pinnedError)
  | find {transaction : Option ℕ} {snapshot : SnapshotPtr} (query : CatalogQuery) :
      pinnedSnapshot s transaction = some snapshot →
      Spawned (.looking transaction query snapshot) .silent

/-- A step of a thread from its place to the next, with the shared state it
leaves behind. -/
inductive Turn (i : ℕ) : Task → Task → CatalogState → Event → Prop
  | move {old new : Task} {e : Event} : Move c s i old new e → Turn i old new s e
  | tryLock (nowNs : ℤ) : s.refreshLock = none →
      Turn i (.locking (.ttl nowNs)) (.rechecking nowNs) { s with refreshLock := some i } .silent
  | lock : s.refreshLock = none →
      Turn i (.locking .pragma) (.fetching .pragma []) { s with refreshLock := some i } .silent
  | defer (nowNs : ℤ) (error : Option Str) :
      Turn i (.refreshed (.ttl nowNs) error) (.releasing (.ttl nowNs) none)
        { s with nextCheckNs := nowNs + c.delay error } .silent
  | store (nowNs : ℤ) :
      Turn i (.storing nowNs) (.releasing .pragma none)
        { s with nextCheckNs := nowNs + c.config.labelCacheTtlNs } (.stored i)
  | unlock (nowNs : ℤ) (error : Option Str) :
      Turn i (.releasing (.ttl nowNs) error) .pinning { s with refreshLock := none } .silent
  | finish : Turn i (.releasing .pragma none) .finished { s with refreshLock := none } .silent
  | fail (message : Str) :
      Turn i (.releasing .pragma (some message)) .finished { s with refreshLock := none }
        (.errored i message)
  | publish (caller : Caller) (snapshot : LokiCatalogSnapshot) :
      Turn i (.publishing caller snapshot) (.refreshed caller none) (s.publish snapshot)
        (.published i s.heap.length)
  | pin : Turn i .pinning (.pinned s.current) s (.pinned i s.current)
  | close (snapshot : SnapshotPtr) : Turn i (.live snapshot) .finished s .silent
  | answer (transaction : Option ℕ) (query : CatalogQuery) {snapshot : SnapshotPtr}
      {generation : LokiCatalogSnapshot} : s.deref snapshot = some generation →
      Turn i (.looking transaction query snapshot) .finished s
        (.returned i transaction snapshot query (c.answer generation query))

inductive Effect : CatalogState → Event → Prop
  | tick (nowNs : ℤ) : Effect { s with clock := nowNs } .silent
  | spawn {task : Task} {e : Event} : Spawned c s task e → Effect (s.spawn task) e
  | turn {i : ℕ} {old new : Task} {shared : CatalogState} {e : Event} :
      s.tasks[i]? = some old → Turn c s i old new shared e → Effect (shared.put i new) e

variable {c s}

theorem Effect.of_eq {t t' : CatalogState} {e e' : Event} (heffect : Effect c s t e)
    (h : some (t, e) = some (t', e')) : Effect c s t' e' := by
  obtain ⟨ht, he⟩ := Prod.mk.inj (Option.some.inj h)
  rw [← ht, ← he]
  exact heffect

theorem effect_of_think {i : ℕ} {old : Task} {t : CatalogState} {e : Event}
    (hold : s.tasks[i]? = some old)
    (h : (c.think s i old).map (fun (new, event) ↦ (s.put i new, event)) = some (t, e)) :
    Effect c s t e := by
  obtain ⟨⟨new, event⟩, hthink, h⟩ := Option.map_eq_some_iff.mp h
  exact Effect.of_eq (.turn hold (.move (move_of_think hthink))) (congrArg some h)

theorem effect_of_advance {i : ℕ} {old : Task} {t : CatalogState} {e : Event}
    (hold : s.tasks[i]? = some old) (h : c.advance s i old = some (t, e)) : Effect c s t e := by
  cases old with
  | locking caller =>
    rw [advance] at h
    split at h
    · rename_i hfree
      cases caller with
      | ttl nowNs => exact Effect.of_eq (.turn hold (.tryLock nowNs hfree)) h
      | pragma => exact Effect.of_eq (.turn hold (.lock hfree)) h
    · exact effect_of_think hold h
  | publishing caller snapshot => exact Effect.of_eq (.turn hold (.publish caller snapshot)) h
  | refreshed caller error =>
    cases caller with
    | ttl nowNs =>
      obtain ⟨deadline, hsum, h⟩ := Option.map_eq_some_iff.mp h
      rw [← (checked_eq_some.mp hsum).2] at h
      exact Effect.of_eq (.turn hold (.defer nowNs error)) (congrArg some h)
    | pragma => exact effect_of_think hold h
  | storing nowNs =>
    obtain ⟨deadline, hsum, h⟩ := Option.map_eq_some_iff.mp h
    rw [← (checked_eq_some.mp hsum).2] at h
    exact Effect.of_eq (.turn hold (.store nowNs)) (congrArg some h)
  | releasing caller error =>
    cases caller with
    | ttl nowNs => exact Effect.of_eq (.turn hold (.unlock nowNs error)) h
    | pragma =>
      cases error with
      | none => exact Effect.of_eq (.turn hold .finish) h
      | some message => exact Effect.of_eq (.turn hold (.fail message)) h
  | pinning => exact Effect.of_eq (.turn hold .pin) h
  | looking transaction query snapshot =>
    obtain ⟨generation, hderef, h⟩ := Option.map_eq_some_iff.mp h
    exact Effect.of_eq (.turn hold (.answer transaction query hderef)) (congrArg some h)
  | _ => exact effect_of_think hold h

theorem effect_of_close {i : ℕ} {t : CatalogState} {e : Event} (h : close s i = some (t, e)) :
    Effect c s t e := by
  unfold close at h
  split at h
  · rename_i snapshot hlive
    exact Effect.of_eq (.turn hlive (.close snapshot)) h
  · cases h

theorem step_effect {a : Action} {t : CatalogState} {e : Event} (h : c.step s a = some (t, e)) :
    Effect c s t e := by
  cases a with
  | tick nowNs => exact Effect.of_eq (.tick nowNs) h
  | startTransaction => exact Effect.of_eq (.spawn .transaction) h
  | refreshLabels =>
    rw [step] at h
    split_ifs at h with hpinned
    · exact Effect.of_eq (.spawn (.refuse hpinned)) h
    · exact Effect.of_eq (.spawn (.refresh hpinned)) h
  | find transaction query =>
    obtain ⟨snapshot, hsnapshot, h⟩ := Option.map_eq_some_iff.mp h
    exact Effect.of_eq (.spawn (.find query hsnapshot)) (congrArg some h)
  | commitTransaction i => exact effect_of_close h
  | rollbackTransaction i => exact effect_of_close h
  | reply i response =>
    obtain ⟨old, hold, h⟩ := Option.bind_eq_some_iff.mp h
    obtain ⟨⟨new, event⟩, hreceive, h⟩ := Option.map_eq_some_iff.mp h
    exact Effect.of_eq (.turn hold (.move (move_of_receive hreceive))) (congrArg some h)
  | advance i =>
    obtain ⟨old, hold, h⟩ := Option.bind_eq_some_iff.mp h
    exact effect_of_advance hold h

end Effects

section Threads

def Event.thread : Event → Option ℕ
  | .silent => none
  | .attempted i _ | .replied i _ _ | .failed i _ | .unchanged i | .published i _ | .stored i
  | .errored i _ | .pinned i _ | .returned i _ _ _ _ => some i

variable {c : LokiCatalog} {s t : CatalogState} {i : ℕ} {e : Event}

theorem tasks_put {old : Task} (h : s.tasks[i]? = some old) (new : Task) (j : ℕ) :
    (s.put i new).tasks[j]? = if j = i then some new else s.tasks[j]? := by
  have hlt := (List.getElem?_eq_some_iff.mp h).1
  rw [CatalogState.put, List.getElem?_set]
  split_ifs with hij hji hji
  · rfl
  · exact absurd hij.symm hji
  · exact absurd hji.symm hij
  · rfl

theorem tasks_spawn (task : Task) (j : ℕ) :
    (s.spawn task).tasks[j]? = if j = s.tasks.length then some task else s.tasks[j]? := by
  rw [CatalogState.spawn]
  dsimp only
  split_ifs with hj
  · rw [hj, List.getElem?_concat_length]
  · rcases Nat.lt_or_gt_of_ne hj with hlt | hgt
    · exact List.getElem?_append_left hlt
    · rw [List.getElem?_eq_none (by rw [List.length_append, List.length_singleton]; omega),
        List.getElem?_eq_none hgt.le]

variable {old new : Task} {shared : CatalogState}

theorem Turn.tasks (h : Turn c s i old new shared e) : shared.tasks = s.tasks := by
  cases h <;> rfl

theorem Turn.thread (h : Turn c s i old new shared e) : e.thread = none ∨ e.thread = some i := by
  cases h with
  | move h => cases h <;> simp [Event.thread]
  | _ => simp [Event.thread]

theorem Turn.tasks_put (h : Turn c s i old new shared e) (hold : s.tasks[i]? = some old) (j : ℕ) :
    (shared.put i new).tasks[j]? = if j = i then some new else s.tasks[j]? := by
  rw [DuckdbLoki.tasks_put (h.tasks ▸ hold), h.tasks]

theorem Effect.task_cases (h : Effect c s t e) {task : Task} (ht : t.tasks[i]? = some task) :
    (s.tasks[i]? = some task ∧ e.thread ≠ some i) ∨
      (i = s.tasks.length ∧ Spawned c s task e ∧ t = s.spawn task) ∨
      ∃ old shared, s.tasks[i]? = some old ∧ Turn c s i old task shared e ∧
        t = shared.put i task := by
  cases h with
  | tick => exact Or.inl ⟨ht, nofun⟩
  | @spawn new e hspawn =>
    rw [tasks_spawn] at ht
    split_ifs at ht with hi
    · rw [Option.some.inj ht] at hspawn ⊢
      exact Or.inr (Or.inl ⟨hi, hspawn, rfl⟩)
    · refine Or.inl ⟨ht, ?_⟩
      cases hspawn with
      | refuse => exact fun h ↦ hi (Option.some.inj h).symm
      | _ => nofun
  | @turn j old new shared e hold hturn =>
    rw [hturn.tasks_put hold] at ht
    split_ifs at ht with hi
    · rw [← hi] at hold hturn
      rw [Option.some.inj ht] at hturn
      rw [← hi, Option.some.inj ht]
      exact Or.inr (Or.inr ⟨old, shared, hold, hturn, rfl⟩)
    · refine Or.inl ⟨ht, ?_⟩
      rcases hturn.thread with hnone | hsome
      · rw [hnone]
        nofun
      · rw [hsome]
        exact fun h ↦ hi (Option.some.inj h).symm

theorem Effect.length_le (h : Effect c s t e) : s.tasks.length ≤ t.tasks.length := by
  cases h with
  | tick => exact le_rfl
  | spawn => exact List.length_append ▸ Nat.le_add_right _ _
  | turn hold hturn =>
    rw [CatalogState.put, List.length_set, hturn.tasks]

theorem Effect.thread_cases (h : Effect c s t e) (hold : s.tasks[i]? = some old) :
    (t.tasks[i]? = some old ∧ e.thread ≠ some i) ∨
      ∃ new shared, t.tasks[i]? = some new ∧ Turn c s i old new shared e ∧ t = shared.put i new := by
  have hlen : s.tasks.length ≤ t.tasks.length := h.length_le
  have hlt := (List.getElem?_eq_some_iff.mp hold).1.trans_le hlen
  have hnew : t.tasks[i]? = some t.tasks[i] := List.getElem?_eq_getElem hlt
  rcases h.task_cases hnew with ⟨hsame, hthread⟩ | ⟨hi, _, _⟩ | ⟨other, shared, hother, hturn, heq⟩
  · exact Or.inl ⟨hnew.trans (hsame.symm.trans hold), hthread⟩
  · rw [hi, List.getElem?_eq_none le_rfl] at hold
    cases hold
  · rw [hold] at hother
    rw [← Option.some.inj hother] at hturn
    exact Or.inr ⟨_, shared, hnew, hturn, heq⟩

end Threads

section Alone

def Action.thread : Action → Option ℕ
  | .commitTransaction i | .rollbackTransaction i | .reply i _ | .advance i => some i
  | _ => none

def CatalogState.Alone (i : ℕ) (s t : CatalogState) : Prop :=
  ∀ j, j ≠ i → t.tasks[j]? = s.tasks[j]?

variable {c : LokiCatalog} {s t shared : CatalogState} {i j : ℕ} {old new task : Task}
  {e event : Event} {a : Action}

theorem alone_put (h : some (shared.put i new, event) = some (t, e))
    (hshared : shared.tasks = s.tasks) : s.Alone i t := by
  intro j hij
  rw [← (Prod.mk.inj (Option.some.inj h)).1, CatalogState.put, List.getElem?_set_ne hij.symm,
    hshared]

theorem alone_think
    (h : (c.think s i task).map (fun (new, event) ↦ (s.put i new, event)) = some (t, e)) :
    s.Alone i t := by
  obtain ⟨⟨new, event⟩, _, h⟩ := Option.map_eq_some_iff.mp h
  exact alone_put (congrArg some h) rfl

theorem alone_advance (h : c.advance s i old = some (t, e)) : s.Alone i t := by
  cases old with
  | locking caller =>
    rw [advance] at h
    split at h
    · exact alone_put h rfl
    · exact alone_think h
  | refreshed caller error =>
    cases caller with
    | ttl nowNs =>
      obtain ⟨deadline, _, h⟩ := Option.map_eq_some_iff.mp h
      exact alone_put (congrArg some h) rfl
    | pragma => exact alone_think h
  | storing nowNs =>
    obtain ⟨deadline, _, h⟩ := Option.map_eq_some_iff.mp h
    exact alone_put (congrArg some h) rfl
  | releasing caller error =>
    cases caller with
    | ttl nowNs => exact alone_put h rfl
    | pragma => cases error <;> exact alone_put h rfl
  | publishing | pinning | pinned => exact alone_put h rfl
  | live | finished => cases h
  | looking transaction query snapshot =>
    obtain ⟨generation, _, h⟩ := Option.map_eq_some_iff.mp h
    exact alone_put (congrArg some h) rfl
  | _ => exact alone_think h

theorem alone_close (h : close s i = some (t, e)) : s.Alone i t := by
  unfold close at h
  split at h
  · exact alone_put h rfl
  · cases h

theorem step_tasks (h : c.step s a = some (t, e)) (ha : a.thread ≠ some i)
    (hi : i ≠ s.tasks.length) : t.tasks[i]? = s.tasks[i]? := by
  have hother : ∀ {j : ℕ}, a.thread = some j → i ≠ j := fun hj hij ↦ ha (hij ▸ hj)
  have hspawn : ∀ {task : Task} {event : Event}, some (s.spawn task, event) = some (t, e) →
      t.tasks[i]? = s.tasks[i]? := by
    intro task event h
    rw [← (Prod.mk.inj (Option.some.inj h)).1, tasks_spawn, if_neg hi]
  cases a with
  | tick nowNs => rw [← (Prod.mk.inj (Option.some.inj h)).1]
  | startTransaction => exact hspawn h
  | refreshLabels =>
    rw [step] at h
    split_ifs at h
    · exact hspawn h
    · exact hspawn h
  | find =>
    obtain ⟨snapshot, _, h⟩ := Option.map_eq_some_iff.mp h
    exact hspawn (congrArg some h)
  | commitTransaction | rollbackTransaction => exact alone_close h i (hother rfl)
  | reply =>
    obtain ⟨old, _, h⟩ := Option.bind_eq_some_iff.mp h
    obtain ⟨⟨new, event⟩, _, h⟩ := Option.map_eq_some_iff.mp h
    exact alone_put (congrArg some h) rfl i (hother rfl)
  | advance =>
    obtain ⟨old, _, h⟩ := Option.bind_eq_some_iff.mp h
    exact alone_advance h i (hother rfl)

end Alone

end DuckdbLoki
