import DuckdbLoki.CatalogDeadlines
import DuckdbLoki.Durations
import DuckdbLoki.Tenants

namespace DuckdbLoki

open LokiCatalog

section Accepted

variable {x : ℤ} {text key : Str}

theorem parseDurationToNanos_nonneg (h : (parseDurationToNanos text).run = some (.ok x)) :
    0 ≤ x ∧ InInt64 x := by
  rcases parseDurationToNanos_cases text with
    ⟨n, unitNanos, hduration, hfits, hok⟩ | ⟨_, _, _, _, _, herror⟩ | ⟨_, herror⟩
  · rw [hok] at h
    rw [← Except.ok.inj (Option.some.inj h)]
    have hpos := hduration.unit_bounds.1
    exact ⟨Int.mul_nonneg (Int.natCast_nonneg n) (by omega), hfits⟩
  · cases h.symm.trans herror
  · cases h.symm.trans herror

theorem readTtl_nonneg {value : AttachValue} (h : (readTtl value).run = some (.ok x)) :
    0 ≤ x ∧ InInt64 x := by
  unfold readTtl at h
  split at h
  · obtain ⟨nanos, hnanos, h⟩ := bind_eq_ok h
    dsimp only at h
    split_ifs at h with hnegative
    · obtain ⟨_, hthrow, _⟩ := bind_eq_ok h
      cases hthrow
    · rw [← Except.ok.inj (Option.some.inj h)]
      exact ⟨not_lt.mp hnegative, (intervalToNanos_eq_ok hnanos).2.2⟩
  · split_ifs at h with hnegative
    · cases h
    · obtain ⟨hfits, hproduct⟩ := tryMultiplyNanos_true (orThrow_eq_ok h)
      refine ⟨?_, hfits⟩
      rw [hproduct]
      exact Int.mul_nonneg (not_lt.mp hnegative) (by decide)
  · cases h
  · exact parseDurationToNanos_nonneg h

theorem parseTtlOption_nonneg {value : Option AttachValue}
    (h : (parseTtlOption value key).run = some (.ok x)) : 0 ≤ x ∧ InInt64 x := by
  have hzero : ∀ {x : ℤ}, (pure 0 : ExceptT Str Option ℤ).run = some (.ok x) →
      0 ≤ x ∧ InInt64 x := by
    intro x h
    rw [← Except.ok.inj (Option.some.inj h)]
    decide
  unfold parseTtlOption at h
  split at h
  · exact hzero h
  · split at h
    · exact hzero h
    · obtain ⟨result, hresult, heq⟩ := Option.map_eq_some_iff.mp h
      cases result with
      | error e => cases heq
      | ok nanos =>
        rw [← Except.ok.inj heq]
        exact readTtl_nonneg hresult

theorem checkExplicitLabels_promotable {seen labels : List Str} (hseen : Promotable seen)
    (h : checkExplicitLabels seen labels = .ok ()) : Promotable (seen ++ labels) := by
  induction labels generalizing seen with
  | nil =>
    rw [List.append_nil]
    exact hseen
  | cons label labels ih =>
    unfold checkExplicitLabels at h
    split_ifs at h with hvalid hreserved hfresh
    have hsnoc := hseen.snoc hvalid (Bool.eq_false_of_not_eq_true hreserved) hfresh
    rw [List.append_cons]
    exact ih hsnoc h

variable {read : Str → Option Json} {server : ℕ → HttpCall → HttpResponse} {m : SecretManager}
  {store : List Secret} {path endpoint schemaName : Str} {auth : AuthConfig}
  {explicitLabels : Option (List Str)}

theorem attachTenant_promotable {tenantId : Str × ℕ} {tenant : LokiTenant}
    (hexplicit : ∀ labels ∈ explicitLabels, Promotable labels)
    (h : attachTenant read server endpoint auth explicitLabels schemaName tenantId = .ok tenant) :
    Promotable tenant.labelColumns := by
  unfold attachTenant at h
  cases hlabels : resolveLabels read server endpoint auth explicitLabels tenantId.2 tenantId.1 with
  | error message =>
    rw [hlabels] at h
    cases h
  | ok labels =>
    rw [hlabels] at h
    rw [← Except.ok.inj h]
    unfold resolveLabels at hlabels
    cases explicitLabels with
    | some explicit => exact Except.ok.inj hlabels ▸ hexplicit explicit rfl
    | none => exact fetchLokiLabelNames_promotable hlabels

theorem attachTenants_promotable {tenantIds : List Str} {tenants : List LokiTenant}
    (hexplicit : ∀ labels ∈ explicitLabels, Promotable labels)
    (h : attachTenants read server endpoint auth explicitLabels tenantIds = .ok tenants) :
    tenants ≠ [] ∧ ∀ tenant ∈ tenants, Promotable tenant.labelColumns := by
  by_cases hids : tenantIds = []
  · rw [attachTenants, if_pos hids] at h
    cases hone : attachTenant read server endpoint auth explicitLabels "public".toList
        (auth.tenant, 0) with
    | error message =>
      rw [hone] at h
      cases h
    | ok tenant =>
      rw [hone] at h
      rw [← Except.ok.inj h]
      refine ⟨List.cons_ne_nil _ _, ?_⟩
      intro other hother
      rw [List.mem_singleton.mp hother]
      exact attachTenant_promotable hexplicit hone
  · have hnames := (attachTenants_names h hids).1
    rw [attachTenants, if_neg hids] at h
    constructor
    · intro hempty
      rw [hempty] at hnames
      exact hids hnames.symm
    · intro tenant htenant
      obtain ⟨tenantId, _, hone⟩ := exists_of_mapM h htenant
      exact attachTenant_promotable hexplicit hone

structure Accepted (config : LokiCatalogConfig) : Prop where
  nonneg : 0 ≤ config.labelCacheTtlNs
  fits : InInt64 config.labelCacheTtlNs
  pinned : config.labelsPinned = true → config.labelCacheTtlNs = 0
  tenants_ne : config.tenants ≠ []
  promotable : ∀ tenant ∈ config.tenants, Promotable tenant.labelColumns

theorem attach_accepted {options : AttachOptions} {config : LokiCatalogConfig}
    (h : (lokiAttach read server m store path options).run = some (.ok config)) :
    Accepted config := by
  obtain ⟨⟨endpoint, auth⟩, _, h⟩ := bind_eq_ok h
  obtain ⟨_, hlabels, h⟩ := bind_eq_ok h
  obtain ⟨ttlNs, httl, h⟩ := bind_eq_ok h
  obtain ⟨_, hpinned, h⟩ := bind_eq_ok h
  obtain ⟨seriesMaxRows, _, h⟩ := bind_eq_ok h
  obtain ⟨tenants, htenants, h⟩ := bind_eq_ok h
  obtain ⟨hnonneg, hfits⟩ := parseTtlOption_nonneg httl
  have hexplicit := checkExplicitLabels_promotable .nil (Option.some.inj hlabels)
  have hlists : ∀ labels ∈ options.labels.map (fun value ↦ parseStringListOption (some value)),
      Promotable labels := by
    intro labels hmem
    obtain ⟨value, hvalue, heq⟩ := Option.map_eq_some_iff.mp hmem
    rw [hvalue] at hexplicit
    exact heq ▸ hexplicit
  obtain ⟨hne, hpromotable⟩ := attachTenants_promotable hlists (Option.some.inj htenants)
  rw [← Except.ok.inj (Option.some.inj h)]
  refine ⟨hnonneg, hfits, ?_, hne, hpromotable⟩
  intro hgiven
  have hcheck := Option.some.inj hpinned
  unfold checkTtlWithLabels at hcheck
  by_contra hset
  rw [if_pos ⟨hgiven, hset⟩] at hcheck
  cases hcheck

end Accepted

section Idle

def Task.byTtl : Task → Bool
  | .checking _ | .rechecking _ => true
  | .locking caller | .fetching caller _ | .building caller _ _ | .publishing caller _
  | .refreshed caller _ | .releasing caller _ => caller.reading.isSome
  | _ => false

variable {c : LokiCatalog} {s t shared : CatalogState} {i : ℕ} {old new : Task} {e : Event}
  {a : Action} {nowNs : ℤ}

theorem step_think (hi : s.tasks[i]? = some old)
    (hadvance : c.advance s i old =
      (c.think s i old).map (fun (new, event) ↦ (s.put i new, event)))
    (hthink : c.think s i old = some (new, e)) :
    c.step s (.advance i) = some (s.put i new, e) := by
  rw [step_advance hi, hadvance, hthink]
  rfl

theorem Turn.byTtl (h : Turn c s i old new shared e) (hold : old.byTtl = false) :
    new.byTtl = false ∨ (old = .starting ∧ new = .checking s.clock) := by
  cases h with
  | move hmove =>
    cases hmove with
    | look => exact Or.inr ⟨rfl, rfl⟩
    | skip | enter | stamp => exact Or.inl rfl
    | rethrow | reply | failFetch | unchanged | changed | built | failBuild => exact Or.inl hold
    | _ => cases hold
  | publish => exact Or.inl hold
  | lock | pin | close | answer | store | finish | fail => exact Or.inl rfl
  | _ => cases hold

theorem step_starting (httl : c.config.labelCacheTtlNs = 0) (h : c.step s a = some (t, e))
    (hi : s.tasks[i]? = some .starting) : t.tasks[i]? ≠ some (.checking nowNs) := by
  have hlt : i ≠ s.tasks.length := Nat.ne_of_lt (List.getElem?_eq_some_iff.mp hi).1
  have hskip : c.think s i .starting = some (.pinning, .silent) := if_pos (Or.inr httl)
  intro hlook
  by_cases ha : a.thread = some i
  · cases a with
    | advance =>
      rw [Option.some.inj ha, step_think hi rfl hskip] at h
      rw [← (Prod.mk.inj (Option.some.inj h)).1, tasks_put hi, if_pos rfl] at hlook
      cases hlook
    | reply =>
      rw [Option.some.inj ha, step, hi] at h
      cases h
    | commitTransaction | rollbackTransaction =>
      rw [Option.some.inj ha, step, close, hi] at h
      cases h
    | _ => cases ha
  · rw [step_tasks h ha hlt, hi] at hlook
    cases hlook

theorem step_byTtl (httl : c.config.labelCacheTtlNs = 0) (h : c.step s a = some (t, e))
    (hs : ∀ (i : ℕ) (task : Task), s.tasks[i]? = some task → task.byTtl = false)
    (i : ℕ) (task : Task) (ht : t.tasks[i]? = some task) : task.byTtl = false := by
  rcases (step_effect h).task_cases ht with
    ⟨hsame, _⟩ | ⟨_, hspawn, _⟩ | ⟨old, shared, hold, hturn, _⟩
  · exact hs i task hsame
  · cases hspawn <;> rfl
  · rcases hturn.byTtl (hs i old hold) with hidle | ⟨hstarting, hchecking⟩
    · exact hidle
    · rw [hstarting] at hold
      rw [hchecking] at ht
      exact absurd ht (step_starting httl h hold)

/-- Without a TTL, starting transactions never look at a deadline. -/
theorem run_byTtl {s₀ : CatalogState} {tr : CatalogTrace} {startNs : ℤ} {task : Task}
    (httl : c.config.labelCacheTtlNs = 0) (h : c.initializeState startNs = some s₀)
    (hrun : Machines.Run c.step s₀ tr t) (hi : t.tasks[i]? = some task) : task.byTtl = false := by
  have hidle : ∀ (i : ℕ) (task : Task), t.tasks[i]? = some task → task.byTtl = false := by
    apply hrun.invariant (fun _ _ _ _ hs hstep ↦ step_byTtl httl hstep hs)
    intro i task htask
    rw [initializeState_tasks h, List.getElem?_nil] at htask
    cases htask
  exact hidle i task hi

end Idle
section Deadlines

variable (c : LokiCatalog)

/-- The next check is at a deadline: a transaction that starts before it goes on
without a refresh. -/
structure ChecksAt (deadline : ℤ) (s : CatalogState) : Prop where
  next : s.nextCheckNs = deadline
  early : ∀ (i : ℕ) (nowNs : ℤ), s.tasks[i]? = some (.checking nowNs) → nowNs < deadline →
    c.step s (.advance i) = some (s.put i .pinning, .silent)

def SetsCheck (deadline : ℤ) (s : CatalogState) (i : ℕ) : Prop :=
  ∃ t e, c.step s (.advance i) = some (t, e) ∧ ChecksAt c deadline t

/-- The deadlines made of a time fit, at the start of a catalog and in its runs. -/
structure DeadlinesFit (nowNs : ℤ) : Prop where
  start : ∃ s, c.initializeState nowNs = some s ∧
    ChecksAt c (nowNs + c.config.labelCacheTtlNs) s
  attempts : ∀ (startNs : ℤ) (s₀ s : CatalogState) (tr : CatalogTrace) (i : ℕ)
    (error : Option Str), 0 < startNs → c.initializeState startNs = some s₀ →
    Machines.Run c.step s₀ tr s → s.tasks[i]? = some (.refreshed (.ttl nowNs) error) →
    SetsCheck c (nowNs + c.delay error) s i
  refreshes : ∀ (startNs : ℤ) (s₀ s : CatalogState) (tr : CatalogTrace) (i : ℕ), 0 < startNs →
    c.initializeState startNs = some s₀ → Machines.Run c.step s₀ tr s →
    s.tasks[i]? = some (.storing nowNs) → SetsCheck c (nowNs + c.config.labelCacheTtlNs) s i

variable {c} {s : CatalogState} {nowNs : ℤ} {i : ℕ}

theorem checksAt {deadline : ℤ} (h : s.nextCheckNs = deadline) : ChecksAt c deadline s := by
  refine ⟨h, ?_⟩
  intro i nowNs hi hearly
  have hthink : c.think s i (.checking nowNs) = some (.pinning, .silent) := by
    rw [think, if_pos (hearly.trans_eq h.symm)]
  exact step_think hi rfl hthink

theorem Accepted.initializeState (h : Accepted c.config)
    (hsum : InInt64 (nowNs + c.config.labelCacheTtlNs)) :
    ∃ s, c.initializeState nowNs = some s ∧ s.nextCheckNs = nowNs + c.config.labelCacheTtlNs ∧
      s.refreshLock = none := by
  have hdiscovered : Discovered c.config (c.config.tenants.map LokiTenant.labelColumns) :=
    ⟨List.length_map _, List.forall_mem_map.mpr h.promotable⟩
  unfold LokiCatalog.initializeState
  rw [hdiscovered.buildSnapshot, checked_of_inInt64 hsum]
  exact ⟨_, rfl, rfl, rfl⟩

theorem setsCheck_attempt {error : Option Str}
    (hi : s.tasks[i]? = some (.refreshed (.ttl nowNs) error))
    (hsum : InInt64 (nowNs + c.delay error)) : SetsCheck c (nowNs + c.delay error) s i := by
  have hstep : c.step s (.advance i) = some ({ s with nextCheckNs := nowNs + c.delay error }.put i
      (.releasing (.ttl nowNs) none), .silent) := by
    rw [step_advance hi, advance, checked_of_inInt64 hsum]
    rfl
  exact ⟨_, _, hstep, checksAt rfl⟩

theorem setsCheck_refresh (hi : s.tasks[i]? = some (.storing nowNs))
    (hsum : InInt64 (nowNs + c.config.labelCacheTtlNs)) :
    SetsCheck c (nowNs + c.config.labelCacheTtlNs) s i := by
  have hstep : c.step s (.advance i) =
      some ({ s with nextCheckNs := nowNs + c.config.labelCacheTtlNs }.put i
        (.releasing .pragma none), .stored i) := by
    rw [step_advance hi, advance, checked_of_inInt64 hsum]
    rfl
  exact ⟨_, _, hstep, checksAt rfl⟩

theorem SetsCheck.fits {error : Option Str} {deadline : ℤ} (h : SetsCheck c deadline s i)
    (hi : s.tasks[i]? = some (.refreshed (.ttl nowNs) error)) :
    InInt64 (nowNs + c.delay error) := by
  obtain ⟨t, e, hstep, _⟩ := h
  rw [step_advance hi] at hstep
  obtain ⟨sum, hsum, _⟩ := Option.map_eq_some_iff.mp hstep
  exact (checked_eq_some.mp hsum).1

theorem exists_failed (hpinned : ¬ c.config.labelsPinned = true)
    (httl : c.config.labelCacheTtlNs ≠ 0) (htenants : c.config.tenants ≠ [])
    (hlock : s.refreshLock = none) (hdue : s.nextCheckNs ≤ s.clock) :
    ∃ tr t message, Machines.Run c.step s tr t ∧
      t.tasks[s.tasks.length]? = some (.refreshed (.ttl s.clock) (some message)) := by
  let i := s.tasks.length
  let s₁ := s.spawn .starting
  let s₂ := s₁.put i (.checking s.clock)
  let s₃ := s₂.put i (.locking (.ttl s.clock))
  let s₄ := { s₃ with refreshLock := some i }.put i (.rechecking s.clock)
  let s₅ := s₄.put i (.fetching (.ttl s.clock) [])
  have h₁ : s₁.tasks[i]? = some .starting := by rw [tasks_spawn, if_pos rfl]
  have h₂ : s₂.tasks[i]? = some (.checking s.clock) := by rw [tasks_put h₁, if_pos rfl]
  have h₃ : s₃.tasks[i]? = some (.locking (.ttl s.clock)) := by rw [tasks_put h₂, if_pos rfl]
  have h₄ : s₄.tasks[i]? = some (.rechecking s.clock) := by
    rw [tasks_put (s := { s₃ with refreshLock := some i }) h₃, if_pos rfl]
  have h₅ : s₅.tasks[i]? = some (.fetching (.ttl s.clock) []) := by rw [tasks_put h₄, if_pos rfl]
  have hthink₁ : c.think s₁ i .starting = some (.checking s.clock, .silent) :=
    if_neg (not_or.mpr ⟨hpinned, httl⟩)
  have hthink₂ : c.think s₂ i (.checking s.clock) = some (.locking (.ttl s.clock), .silent) :=
    if_neg (not_lt.mpr hdue)
  have hthink₄ : c.think s₄ i (.rechecking s.clock) =
      some (.fetching (.ttl s.clock) [], .attempted i s.clock) := if_neg (not_lt.mpr hdue)
  have hstep₃ : c.step s₃ (.advance i) = some (s₄, .silent) := by
    have hfree : s₃.refreshLock = none := hlock
    rw [step_advance h₃, advance, hfree]
    rfl
  obtain ⟨message, hmessage⟩ : ∃ message, fetchLokiLabelNames c.read ⟨0, [], ['x']⟩ =
      .error message := ⟨_, if_pos (List.cons_ne_nil _ _)⟩
  obtain ⟨tenant, tenants, hsplit⟩ := List.exists_cons_of_ne_nil htenants
  have hreceive : c.receive i ⟨0, [], ['x']⟩ (.fetching (.ttl s.clock) []) =
      some (.refreshed (.ttl s.clock) (some message), .failed i message) := by
    have hfirst : c.config.tenants[([] : List (List Str)).length]? = some tenant := by
      rw [hsplit]
      rfl
    rw [receive, hfirst]
    dsimp only
    rw [hmessage]
  have hstep₅ : c.step s₅ (.reply i ⟨0, [], ['x']⟩) =
      some (s₅.put i (.refreshed (.ttl s.clock) (some message)), .failed i message) := by
    rw [step, h₅, Option.bind_some, hreceive]
    rfl
  refine ⟨_, _, message, .snoc (.snoc (.snoc (.snoc (.snoc (.snoc .nil
    (a := .startTransaction) rfl) (step_think h₁ rfl hthink₁)) (step_think h₂ rfl hthink₂)) hstep₃)
    (step_think h₄ rfl hthink₄)) hstep₅, ?_⟩
  rw [tasks_put h₅, if_pos rfl]

theorem fits_of_initializeState (h : c.initializeState nowNs = some s) :
    InInt64 (nowNs + c.config.labelCacheTtlNs) := by
  obtain ⟨snapshot, _, h⟩ := Option.bind_eq_some_iff.mp h
  obtain ⟨deadline, hsum, _⟩ := Option.bind_eq_some_iff.mp h
  exact (checked_eq_some.mp hsum).1

theorem delay_le (c : LokiCatalog) (error : Option Str) :
    c.delay error ≤ max c.config.labelCacheTtlNs refreshBackoffNs := by
  rw [delay]
  split_ifs
  · exact le_max_left _ _
  · exact le_rfl

/-- A refresh that fails shows whether the longest sum fits. -/
theorem fits_of_attempts (haccepted : Accepted c.config) (hfit : DeadlinesFit c nowNs)
    (httl : c.config.labelCacheTtlNs ≠ 0) (hbefore : 0 < nowNs - c.config.labelCacheTtlNs)
    (hmax : nowNs ≤ int64Max) :
    InInt64 (nowNs + max c.config.labelCacheTtlNs refreshBackoffNs) := by
  have hnonneg := haccepted.nonneg
  have hnow : nowNs - c.config.labelCacheTtlNs + c.config.labelCacheTtlNs = nowNs :=
    Int.sub_add_cancel _ _
  have hsum : InInt64 (nowNs - c.config.labelCacheTtlNs + c.config.labelCacheTtlNs) := by
    unfold InInt64 int64Min int64Max at *
    omega
  obtain ⟨s₀, hs₀, hnext, hlock⟩ := haccepted.initializeState hsum
  have htick : c.step s₀ (.tick nowNs) = some ({ s₀ with clock := nowNs }, .silent) := rfl
  have hdue : s₀.nextCheckNs ≤ nowNs := hnext.trans hnow |>.le
  have hunpinned : ¬ c.config.labelsPinned = true := fun h ↦ httl (haccepted.pinned h)
  obtain ⟨tr, t, message, hrun, hi⟩ := exists_failed (s := { s₀ with clock := nowNs }) hunpinned
    httl haccepted.tenants_ne hlock hdue
  have hsets := hfit.attempts _ s₀ t _ _ (some message) hbefore hs₀
    ((Machines.Run.single htick).trans hrun) hi
  exact hsets.fits hi

variable {read : Str → Option Json} {server : ℕ → HttpCall → HttpResponse} {m : SecretManager}
  {store : List Secret} {path : Str} {options : AttachOptions}

/-- An accepted TTL makes deadlines that fit where it, and the time that is
waited after a failure, end before the last nanosecond. -/
theorem deadlinesFit_iff
    (hattach : (lokiAttach read server m store path options).run = some (.ok c.config))
    (hpos : 0 < nowNs) (hmax : nowNs ≤ int64Max) :
    DeadlinesFit c nowNs ↔ c.config.labelCacheTtlNs = 0 ∨
      max c.config.labelCacheTtlNs refreshBackoffNs ≤ int64Max - nowNs := by
  have haccepted := attach_accepted hattach
  have hnonneg := haccepted.nonneg
  constructor
  · intro hfit
    by_contra hlong
    obtain ⟨httl, hlong⟩ := not_or.mp hlong
    obtain ⟨s, hs, _⟩ := hfit.start
    have hsum := fits_of_initializeState hs
    -- the TTL alone ends in time, so it is the wait after a failure that does not
    have hbefore : 0 < nowNs - c.config.labelCacheTtlNs := by
      unfold InInt64 int64Min int64Max refreshBackoffNs at *
      omega
    have hwait := fits_of_attempts haccepted hfit httl hbefore hmax
    unfold InInt64 at hwait
    omega
  · intro hshort
    have hsum : InInt64 (nowNs + c.config.labelCacheTtlNs) := by
      unfold InInt64 int64Min int64Max at *
      omega
    constructor
    · obtain ⟨s, hs, hnext, _⟩ := haccepted.initializeState hsum
      exact ⟨s, hs, checksAt hnext⟩
    · intro startNs s₀ s tr i error _ hs₀ hrun hi
      apply setsCheck_attempt hi
      have httl : c.config.labelCacheTtlNs ≠ 0 := fun h ↦ Bool.noConfusion (run_byTtl h hs₀ hrun hi)
      have hwait := hshort.resolve_left httl
      have hdelay := delay_le c error
      have hdelay' := le_delay c error
      unfold InInt64 int64Min int64Max at *
      omega
    · intro startNs s₀ s tr i _ _ _ hi
      exact setsCheck_refresh hi hsum

def ttlOption (text : String) : AttachOptions where
  connection := { endpoint := some "http://loki:3100".toList }
  labelCacheTtl := some ⟨.other, text.toList⟩

def attachedTtl (ttlNs : ℤ) : LokiCatalog where
  name := "logs".toList
  config := {
    endpoint := "http://loki:3100".toList
    auth := ⟨[], [], [], [], []⟩
    tenants := [⟨"public".toList, [], ["app".toList]⟩]
    labelsPinned := false
    labelCacheTtlNs := ttlNs
    seriesMaxRows := 100000 }
  read := appLabels.read

theorem deadlinesFit_minutes : DeadlinesFit (attachedTtl 300000000000) 1700000000000000000 := by
  have hattach : (lokiAttach appLabels.read (fun _ _ ↦ labelsResponse) .reference [] []
      (ttlOption "5m")).run = some (.ok (attachedTtl 300000000000).config) := by rfl
  exact (deadlinesFit_iff hattach (by decide) (by decide)).mpr (Or.inr (by decide))

/-- A TTL that fits by itself, and does not from now on. -/
theorem deadlinesFit_centuries :
    (lokiAttach appLabels.read (fun _ _ ↦ labelsResponse) .reference [] []
      (ttlOption "106751d")).run = some (.ok (attachedTtl 9223286400000000000).config) ∧
    ¬ DeadlinesFit (attachedTtl 9223286400000000000) 1700000000000000000 := by
  refine ⟨by rfl, ?_⟩
  intro hfit
  obtain ⟨s, hs, _⟩ := hfit.start
  exact absurd (fits_of_initializeState hs) (by decide)

end Deadlines

end DuckdbLoki
