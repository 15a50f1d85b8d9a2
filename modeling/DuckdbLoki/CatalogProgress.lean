import DuckdbLoki.Machines.Work
import DuckdbLoki.TtlDeadlines
import Mathlib.Algebra.BigOperators.Group.List.Basic

namespace DuckdbLoki

open LokiCatalog

section Turns

variable {c : LokiCatalog} {s t : CatalogState} {i : ℕ} {old : Task} {e : Event} {a : Action}

theorem Turn.of_eq {new : Task} {shared : CatalogState} {e' : Event}
    (hturn : Turn c s i old new shared e) (h : some (shared.put i new, e) = some (t, e')) :
    ∃ new shared, Turn c s i old new shared e' ∧ t = shared.put i new := by
  obtain ⟨ht, he⟩ := Prod.mk.inj (Option.some.inj h)
  exact ⟨new, shared, he ▸ hturn, ht.symm⟩

theorem turn_of_think
    (h : (c.think s i old).map (fun (new, event) ↦ (s.put i new, event)) = some (t, e)) :
    ∃ new shared, Turn c s i old new shared e ∧ t = shared.put i new := by
  obtain ⟨⟨new, event⟩, hthink, h⟩ := Option.map_eq_some_iff.mp h
  exact Turn.of_eq (.move (move_of_think hthink)) (congrArg some h)

theorem turn_of_advance (h : c.advance s i old = some (t, e)) :
    ∃ new shared, Turn c s i old new shared e ∧ t = shared.put i new := by
  cases old with
  | locking caller =>
    rw [advance] at h
    split at h
    · rename_i hfree
      cases caller with
      | ttl nowNs => exact Turn.of_eq (.tryLock nowNs hfree) h
      | pragma => exact Turn.of_eq (.lock hfree) h
    · exact turn_of_think h
  | publishing caller snapshot => exact Turn.of_eq (.publish caller snapshot) h
  | refreshed caller error =>
    cases caller with
    | ttl nowNs =>
      obtain ⟨deadline, hsum, h⟩ := Option.map_eq_some_iff.mp h
      rw [← (checked_eq_some.mp hsum).2] at h
      exact Turn.of_eq (.defer nowNs error) (congrArg some h)
    | pragma => exact turn_of_think h
  | storing nowNs =>
    obtain ⟨deadline, hsum, h⟩ := Option.map_eq_some_iff.mp h
    rw [← (checked_eq_some.mp hsum).2] at h
    exact Turn.of_eq (.store nowNs) (congrArg some h)
  | releasing caller error =>
    cases caller with
    | ttl nowNs => exact Turn.of_eq (.unlock nowNs error) h
    | pragma =>
      cases error with
      | none => exact Turn.of_eq .finish h
      | some message => exact Turn.of_eq (.fail message) h
  | pinning => exact Turn.of_eq .pin h
  | looking transaction query snapshot =>
    obtain ⟨generation, hderef, h⟩ := Option.map_eq_some_iff.mp h
    exact Turn.of_eq (.answer transaction query hderef) (congrArg some h)
  | _ => exact turn_of_think h

theorem turn_of_step (h : c.step s a = some (t, e)) (ha : a.thread = some i) :
    ∃ old, s.tasks[i]? = some old ∧
      ∃ new shared, Turn c s i old new shared e ∧ t = shared.put i new := by
  have hclose : close s i = some (t, e) → ∃ old, s.tasks[i]? = some old ∧
      ∃ new shared, Turn c s i old new shared e ∧ t = shared.put i new := by
    intro h
    unfold close at h
    split at h
    · rename_i snapshot hlive
      exact ⟨_, hlive, Turn.of_eq (.close snapshot) h⟩
    · cases h
  cases a with
  | tick | startTransaction | refreshLabels | find => cases ha
  | commitTransaction j | rollbackTransaction j =>
    rw [← Option.some.inj ha] at hclose ⊢
    exact hclose h
  | reply j response =>
    rw [← Option.some.inj ha]
    obtain ⟨old, hold, h⟩ := Option.bind_eq_some_iff.mp h
    obtain ⟨⟨new, event⟩, hreceive, h⟩ := Option.map_eq_some_iff.mp h
    exact ⟨old, hold, Turn.of_eq (.move (move_of_receive hreceive)) (congrArg some h)⟩
  | advance j =>
    rw [← Option.some.inj ha]
    obtain ⟨old, hold, h⟩ := Option.bind_eq_some_iff.mp h
    exact ⟨old, hold, turn_of_advance h⟩

end Turns

section Work

def LokiCatalog.work (c : LokiCatalog) : Task → ℕ
  | .starting => c.config.tenants.length + 13
  | .checking _ => c.config.tenants.length + 12
  | .locking _ => c.config.tenants.length + 11
  | .rechecking _ => c.config.tenants.length + 10
  | .fetching _ fetched => c.config.tenants.length - fetched.length + 9
  | .building _ _ _ => 8
  | .publishing _ _ => 7
  | .refreshed _ _ => 6
  | .storing _ => 5
  | .releasing _ _ => 4
  | .pinning => 3
  | .pinned _ => 2
  | .live _ | .looking _ _ _ => 1
  | .finished => 0

def LokiCatalog.threadWork (c : LokiCatalog) (i : ℕ) (s : CatalogState) : ℕ :=
  (s.tasks[i]?).elim (c.config.tenants.length + 13) c.work

variable {c : LokiCatalog} {s t shared : CatalogState} {i : ℕ} {old new : Task} {e : Event}

theorem Move.work (h : Move c s i old new e) : c.work new < c.work old := by
  cases h with
  | reply htenant _ =>
    have hlt := (List.getElem?_eq_some_iff.mp htenant).1
    simp only [LokiCatalog.work, List.length_append, List.length_singleton]
    omega
  | _ =>
    simp only [LokiCatalog.work, List.length_nil]
    omega

theorem Turn.work (h : Turn c s i old new shared e) : c.work new < c.work old := by
  cases h with
  | move hmove => exact hmove.work
  | _ =>
    simp only [LokiCatalog.work, List.length_nil]
    omega

theorem Spawned.work {task : Task} (h : Spawned c s task e) :
    c.work task ≤ c.config.tenants.length + 13 := by
  cases h with
  | _ =>
    simp only [LokiCatalog.work]
    omega

theorem Effect.threadWork_le (h : Effect c s t e) (i : ℕ) :
    c.threadWork i t ≤ c.threadWork i s := by
  unfold LokiCatalog.threadWork
  cases h with
  | tick => exact le_rfl
  | @spawn task e hspawn =>
    rw [tasks_spawn]
    split_ifs with hi
    · rw [hi, List.getElem?_eq_none le_rfl]
      exact hspawn.work
    · exact le_rfl
  | @turn j old new shared e hold hturn =>
    rw [hturn.tasks_put hold]
    split_ifs with hi
    · rw [hi, hold]
      exact hturn.work.le
    · exact le_rfl

theorem usesWork_thread (c : LokiCatalog) (i : ℕ) :
    Machines.UsesWork c.step (fun x ↦ x.action.thread = some i) (c.threadWork i) where
  used x hx hcounts := by
    obtain ⟨old, hold, new, shared, hturn, ht⟩ := turn_of_step hx (of_decide_eq_true hcounts)
    unfold LokiCatalog.threadWork
    rw [ht, hturn.tasks_put hold, if_pos rfl, hold]
    exact hturn.work
  kept x hx _ := (step_effect hx).threadWork_le i

end Work

section Readiness

def Task.resting : Task → Bool
  | .live _ | .finished => true
  | _ => false

def LokiCatalog.Awaits (c : LokiCatalog) (s : CatalogState) (i : ℕ) (call : HttpCall) : Prop :=
  ∃ caller fetched tenant, s.tasks[i]? = some (.fetching caller fetched) ∧
    c.config.tenants[fetched.length]? = some tenant ∧ call = c.tenantCall caller tenant

/-- A thread that can go on by itself, or with whatever response it gets to the
call it has made. -/
def LokiCatalog.Ready (c : LokiCatalog) (s : CatalogState) (i : ℕ) : Prop :=
  (∃ t e, c.step s (.advance i) = some (t, e)) ∨
    ∃ call, c.Awaits s i call ∧ ∀ response, ∃ t e, c.step s (.reply i response) = some (t, e)

/-- A time that the longest delay of the next refresh can be added to. -/
structure LokiCatalog.Delayable (c : LokiCatalog) (nowNs : ℤ) : Prop where
  time : InInt64 nowNs
  sum : InInt64 (nowNs + max c.config.labelCacheTtlNs refreshBackoffNs)

structure LokiCatalog.InTime (c : LokiCatalog) (s : CatalogState) : Prop where
  clock : c.Delayable s.clock
  reading : ∀ (i : ℕ) (task : Task) (nowNs : ℤ), s.tasks[i]? = some task →
    task.reading = some nowNs → c.Delayable nowNs

variable {c : LokiCatalog} {s t shared : CatalogState} {i : ℕ} {old new task : Task} {e : Event}
  {nowNs : ℤ}

theorem LokiCatalog.InTime.delay (h : c.InTime s)
    (hi : s.tasks[i]? = some task) (hreading : task.reading = some nowNs) {delay : ℤ}
    (hdelay : 0 ≤ delay) (hmax : delay ≤ max c.config.labelCacheTtlNs refreshBackoffNs) :
    checked (nowNs + delay) = some (nowNs + delay) := by
  obtain ⟨⟨hge, _⟩, _, hle⟩ := h.reading i task nowNs hi hreading
  apply checked_of_inInt64
  constructor
  · omega
  · omega

theorem ready_of_advance {result : CatalogState × Event} (hi : s.tasks[i]? = some task)
    (h : c.advance s i task = some result) : c.Ready s i :=
  Or.inl ⟨result.1, result.2, (step_advance hi).trans h⟩

theorem ready_of_fetching {caller : Caller} {fetched : List (List Str)}
    (hi : s.tasks[i]? = some (.fetching caller fetched)) (hcurrent : (s.deref s.current).isSome) :
    c.Ready s i := by
  by_cases hlt : fetched.length < c.config.tenants.length
  · have htenant := List.getElem?_eq_getElem hlt
    refine Or.inr ⟨_, ⟨caller, fetched, _, hi, htenant, rfl⟩, ?_⟩
    intro response
    have hreceive : ∃ new event, c.receive i response (.fetching caller fetched) =
        some (new, event) := by
      rw [receive, htenant]
      dsimp only
      cases fetchLokiLabelNames c.read response with
      | ok names => exact ⟨_, _, rfl⟩
      | error message => exact ⟨_, _, rfl⟩
    obtain ⟨new, event, hreceive⟩ := hreceive
    refine ⟨s.put i new, event, ?_⟩
    rw [step, hi, Option.bind_some, hreceive]
    rfl
  · have hcompare : ∃ result, compareFetched s i caller fetched = some result := by
      obtain ⟨current, hderef⟩ := Option.isSome_iff_exists.mp hcurrent
      obtain ⟨g, hg, hget⟩ := Option.bind_eq_some_iff.mp hderef
      unfold compareFetched
      rw [hg]
      dsimp only
      rw [hget]
      exact ⟨_, rfl⟩
    obtain ⟨⟨new, event⟩, hcompare⟩ := hcompare
    have hadvance : c.advance s i (.fetching caller fetched) = some (s.put i new, event) := by
      change (c.think s i (.fetching caller fetched)).map _ = _
      rw [think, if_neg hlt, hcompare]
      rfl
    exact ready_of_advance hi hadvance

theorem ready_of_inside (httl : 0 ≤ c.config.labelCacheTtlNs) (htime : c.InTime s)
    (hcurrent : (s.deref s.current).isSome) (hi : s.tasks[i]? = some task)
    (hin : task.inside = true) : c.Ready s i := by
  cases task with
  | fetching caller fetched => exact ready_of_fetching hi hcurrent
  | rechecking nowNs =>
    by_cases hlt : nowNs < s.nextCheckNs
    · apply ready_of_advance hi
      change (c.think s i (.rechecking nowNs)).map _ = _
      rw [think, if_pos hlt]
      rfl
    · apply ready_of_advance hi
      change (c.think s i (.rechecking nowNs)).map _ = _
      rw [think, if_neg hlt]
      rfl
  | building caller fetched nextVersion =>
    cases hbuild : buildSnapshot c.config fetched nextVersion with
    | ok snapshot =>
      apply ready_of_advance hi
      change (c.think s i (.building caller fetched nextVersion)).map _ = _
      rw [think, hbuild]
      rfl
    | error message =>
      apply ready_of_advance hi
      change (c.think s i (.building caller fetched nextVersion)).map _ = _
      rw [think, hbuild]
      rfl
  | publishing caller snapshot => exact ready_of_advance hi rfl
  | refreshed caller error =>
    cases caller with
    | ttl nowNs =>
      have hsum := htime.delay hi rfl (httl.trans (le_delay c error)) (delay_le c error)
      apply ready_of_advance hi
      rw [advance, hsum]
      rfl
    | pragma => cases error <;> exact ready_of_advance hi rfl
  | storing nowNs =>
    have hsum := htime.delay hi rfl httl (le_max_left _ _)
    apply ready_of_advance hi
    rw [advance, hsum]
    rfl
  | releasing caller error =>
    cases caller with
    | ttl nowNs => exact ready_of_advance hi rfl
    | pragma => cases error <;> exact ready_of_advance hi rfl
  | _ => cases hin

/-- A thread that cannot go on waits for the lock. -/
theorem ready_or_blocked (httl : 0 ≤ c.config.labelCacheTtlNs) (htime : c.InTime s)
    (hpin : s.Pinning) (hi : s.tasks[i]? = some task) (hrest : task.resting = false) :
    c.Ready s i ∨ task.inside = false ∧ ∃ j, s.refreshLock = some j := by
  have hderef : ∀ p, s.publication.Kept p → ∃ generation, s.deref p = some generation := by
    intro p hp
    obtain ⟨g, hg, hlt⟩ := hpin.rooted p hp
    rw [CatalogState.deref, hg, Option.bind_some]
    exact ⟨_, List.getElem?_eq_getElem hlt⟩
  have hcurrent : (s.deref s.current).isSome :=
    Option.isSome_iff_exists.mpr (hderef s.current (Or.inl rfl))
  cases task with
  | live | finished => cases hrest
  | starting =>
    left
    by_cases hskip : c.config.labelsPinned ∨ c.config.labelCacheTtlNs = 0
    · apply ready_of_advance hi
      change (c.think s i .starting).map _ = _
      rw [think, if_pos hskip]
      rfl
    · apply ready_of_advance hi
      change (c.think s i .starting).map _ = _
      rw [think, if_neg hskip]
      rfl
  | checking nowNs =>
    left
    by_cases hlt : nowNs < s.nextCheckNs
    · apply ready_of_advance hi
      change (c.think s i (.checking nowNs)).map _ = _
      rw [think, if_pos hlt]
      rfl
    · apply ready_of_advance hi
      change (c.think s i (.checking nowNs)).map _ = _
      rw [think, if_neg hlt]
      rfl
  | locking caller =>
    cases hlock : s.refreshLock with
    | some j =>
      right
      exact ⟨rfl, j, rfl⟩
    | none =>
      left
      apply ready_of_advance hi
      rw [advance, hlock]
  | pinning | pinned => exact Or.inl (ready_of_advance hi rfl)
  | looking transaction query snapshot =>
    have hpinned : s.pins i = some snapshot := pins_of_task hi
    obtain ⟨generation, hgeneration⟩ := hderef snapshot (hpin.sound.pinned i snapshot hpinned)
    left
    apply ready_of_advance hi
    rw [advance, hgeneration]
    rfl
  | _ => exact Or.inl (ready_of_inside httl htime hcurrent hi rfl)

end Readiness

section Rest

variable {c : LokiCatalog} {s t shared : CatalogState} {i : ℕ} {old new task : Task} {e : Event}
  {a : Action} {nowNs : ℤ} {tr : CatalogTrace}

theorem Effect.inTime (h : Effect c s t e) (hclock : c.Delayable t.clock) (hs : c.InTime s) :
    c.InTime t := by
  refine ⟨hclock, ?_⟩
  intro i task readNs htask hreading
  rcases h.task_cases htask with ⟨hsame, _⟩ | ⟨_, hspawn, _⟩ | ⟨old, shared, hold, hturn, _⟩
  · exact hs.reading i task readNs hsame hreading
  · cases hspawn <;> cases hreading
  · rcases hturn.reading hreading with hbefore | hnow
    · exact hs.reading i old readNs hold hbefore
    · exact hnow ▸ hs.clock

theorem run_inTime {s₀ : CatalogState} (h : c.initializeState nowNs = some s₀)
    (hrun : Machines.Run c.step s₀ tr t) (hnow : c.Delayable nowNs)
    (hclock : ∀ x ∈ tr, c.Delayable x.after.clock) : c.InTime t := by
  refine hrun.preserves (I := c.InTime) ?_ ?_
  · obtain ⟨snapshot, _, heq⟩ := initializeState_eq h
    rw [heq]
    refine ⟨hnow, ?_⟩
    intro i task readNs htask
    rw [List.getElem?_nil] at htask
    cases htask
  · exact fun x hx hvalid hs ↦ (step_effect hvalid).inTime (hclock x hx) hs

structure LokiCatalog.Sane (c : LokiCatalog) (s : CatalogState) : Prop where
  pinning : s.Pinning
  locked : s.Locked
  inTime : c.InTime s

theorem Turn.clock (h : Turn c s i old new shared e) : shared.clock = s.clock := by
  cases h <;> rfl

theorem LokiCatalog.Sane.step (hs : c.Sane s) (h : c.step s a = some (t, e))
    (ha : a.thread = some i) : c.Sane t := by
  have heffect := step_effect h
  obtain ⟨old, hold, new, shared, hturn, ht⟩ := turn_of_step h ha
  have hclock : t.clock = s.clock := by
    rw [ht]
    exact hturn.clock
  exact ⟨heffect.pinning hs.pinning, heffect.locked hs.locked,
    heffect.inTime (hclock ▸ hs.inTime.clock) hs.inTime⟩

/-- A thread that is not at rest can go on, or the one that has the lock can. -/
theorem LokiCatalog.Sane.ready (hs : c.Sane s) (httl : 0 ≤ c.config.labelCacheTtlNs)
    (hi : s.tasks[i]? = some task) (hrest : task.resting = false) :
    c.Ready s i ∨ ∃ j, j ≠ i ∧ s.refreshLock = some j ∧ c.Ready s j := by
  rcases ready_or_blocked httl hs.inTime hs.pinning hi hrest with hready | ⟨hout, j, hlock⟩
  · exact Or.inl hready
  · obtain ⟨holder, hj, hin⟩ := hs.locked.holder j hlock
    have hcurrent : (s.deref s.current).isSome := by
      obtain ⟨g, hg, hlt⟩ := hs.pinning.rooted s.current (Or.inl rfl)
      rw [CatalogState.deref, hg, Option.bind_some, List.getElem?_eq_getElem hlt]
      rfl
    refine Or.inr ⟨j, ?_, hlock, ready_of_inside httl hs.inTime hcurrent hj hin⟩
    rintro rfl
    rw [hi] at hj
    rw [Option.some.inj hj, hin] at hout
    cases hout

def LokiCatalog.totalWork (c : LokiCatalog) (s : CatalogState) : ℕ := (s.tasks.map c.work).sum

theorem totalWork_put (h : Turn c s i old new shared e) (hold : s.tasks[i]? = some old) :
    c.totalWork (shared.put i new) < c.totalWork s := by
  have hless := h.work
  obtain ⟨hlt, hget⟩ := List.getElem?_eq_some_iff.mp hold
  have hsplit : s.tasks = s.tasks.take i ++ old :: s.tasks.drop (i + 1) := by
    rw [← hget, ← List.drop_eq_getElem_cons hlt, List.take_append_drop]
  have hset : (shared.put i new).tasks = s.tasks.take i ++ new :: s.tasks.drop (i + 1) := by
    rw [CatalogState.put, h.tasks, List.set_eq_take_append_cons_drop, if_pos hlt]
  unfold LokiCatalog.totalWork
  rw [hset]
  conv_rhs => rw [hsplit]
  simp only [List.map_append, List.map_cons, List.sum_append, List.sum_cons]
  omega

/-- An action that the threads themselves take, or a server that answers their
calls. -/
def LokiCatalog.Answered (c : LokiCatalog) (respond : HttpCall → HttpResponse) (s : CatalogState) :
    Action → Prop
  | .advance _ => True
  | .reply i response => ∃ call, c.Awaits s i call ∧ response = respond call
  | _ => False

theorem restless (httl : 0 ≤ c.config.labelCacheTtlNs) (respond : HttpCall → HttpResponse) :
    Machines.Restless c.step c.Sane (c.Answered respond)
      (fun s ↦ ∀ task ∈ s.tasks, task.resting = true) c.totalWork := by
  have hready : ∀ s i, c.Sane s → c.Ready s i → ∃ a t e, c.Answered respond s a ∧
      c.step s a = some (t, e) ∧ c.Sane t ∧ c.totalWork t < c.totalWork s := by
    intro s i hs hready
    have hstep : ∃ a t e, c.Answered respond s a ∧ c.step s a = some (t, e) ∧
        a.thread = some i := by
      rcases hready with ⟨t, e, h⟩ | ⟨call, hcall, h⟩
      · exact ⟨.advance i, t, e, trivial, h, rfl⟩
      · obtain ⟨t, e, h⟩ := h (respond call)
        exact ⟨.reply i (respond call), t, e, ⟨call, hcall, rfl⟩, h, rfl⟩
    obtain ⟨a, t, e, hanswered, h, ha⟩ := hstep
    obtain ⟨old, hold, new, shared, hturn, ht⟩ := turn_of_step h ha
    refine ⟨a, t, e, hanswered, h, hs.step h ha, ?_⟩
    rw [ht]
    exact totalWork_put hturn hold
  constructor
  intro s hs hrest
  obtain ⟨task, htask, hmoving⟩ : ∃ task ∈ s.tasks, task.resting = false := by
    simpa using hrest
  obtain ⟨i, hi⟩ := List.getElem?_of_mem htask
  rcases hs.ready httl hi hmoving with hi | ⟨j, _, _, hj⟩
  · exact hready s i hs hi
  · exact hready s j hs hj

/-- Every thread is done after a number of steps that the tenants bound. One that
is not done can go on or waits for the lock, whose holder can go on; and
whatever the server answers, all of them can be brought to rest. -/
theorem threads_come_to_rest {s₀ : CatalogState} (httl : 0 ≤ c.config.labelCacheTtlNs)
    (hnow : c.Delayable nowNs) (h : c.initializeState nowNs = some s₀)
    (hrun : Machines.Run c.step s₀ tr t) (hclock : ∀ x ∈ tr, c.Delayable x.after.clock) :
    (∀ i, tr.countP (fun x ↦ x.action.thread = some i) ≤ c.config.tenants.length + 13) ∧
      (∀ i task, t.tasks[i]? = some task → task.resting = false →
        c.Ready t i ∨ ∃ j, j ≠ i ∧ t.refreshLock = some j ∧ c.Ready t j) ∧
      ∀ respond : HttpCall → HttpResponse, ∃ tr' u, Machines.Run c.step t tr' u ∧
        (∀ x ∈ tr', c.Answered respond x.before x.action) ∧
        tr'.length ≤ c.totalWork t ∧ ∀ task ∈ u.tasks, task.resting = true := by
  have hsane : c.Sane t :=
    ⟨run_pinning h hrun, run_locked h hrun, run_inTime h hrun hnow hclock⟩
  refine ⟨?_, ?_, ?_⟩
  · intro i
    have hcount := hrun.countP_le (usesWork_thread c i)
    have hborn : c.threadWork i s₀ = c.config.tenants.length + 13 := by
      rw [LokiCatalog.threadWork, initializeState_tasks h, List.getElem?_nil]
      rfl
    omega
  · intro i task hi hrest
    exact hsane.ready httl hi hrest
  · intro respond
    obtain ⟨tr', u, hrest, hall, _, hresting, hlen⟩ := (restless httl respond).rests hsane
    exact ⟨tr', u, hrest, hall, by omega, hresting⟩

/-- In the middle of the sample run one transaction is still in its refresh. -/
theorem threads_come_to_rest_sample : ∃ s₀ tr t, appLabels.initializeState 0 = some s₀ ∧
    Machines.Run appLabels.step s₀ tr t ∧
      (∃ task, t.tasks[3]? = some task ∧ task.resting = false) ∧
      ∃ tr' u, Machines.Run appLabels.step t tr' u ∧
        (∀ x ∈ tr', appLabels.Answered (fun _ ↦ noResponse) x.before x.action) ∧
        tr'.length ≤ appLabels.totalWork t ∧ ∀ task ∈ u.tasks, task.resting = true := by
  obtain ⟨s₀, tr, t, hs₀, hrun, heq, _, _⟩ := sampleRun_run
  have hclock : sampleRun.map (fun x ↦ x.1.all (fun y ↦ decide (y.after.clock ∈ [0, 20]))) =
      some true := by decide +kernel
  have hmoving : sampleRun.map (fun x ↦ (x.2.tasks[3]?).map Task.resting) = some (some false) := by
    decide +kernel
  rw [heq] at hclock hmoving
  obtain ⟨task, htask, hrest⟩ := Option.map_eq_some_iff.mp (Option.some.inj hmoving)
  have hdelayable : ∀ nowNs ∈ [0, 20], appLabels.Delayable nowNs :=
    List.forall_mem_cons.mpr ⟨⟨by decide, by decide⟩,
      List.forall_mem_singleton.mpr ⟨by decide, by decide⟩⟩
  have htimes : ∀ x ∈ tr, appLabels.Delayable x.after.clock := by
    intro x hx
    exact hdelayable _ (of_decide_eq_true (List.all_eq_true.mp (Option.some.inj hclock) x hx))
  obtain ⟨_, _, hrests⟩ := threads_come_to_rest (c := appLabels) (by decide)
    (hdelayable 0 List.mem_cons_self) hs₀ hrun htimes
  exact ⟨s₀, tr, t, hs₀, hrun, ⟨task, htask, hrest⟩, hrests _⟩

end Rest

end DuckdbLoki
