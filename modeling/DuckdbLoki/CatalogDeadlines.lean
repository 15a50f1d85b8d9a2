import DuckdbLoki.CatalogRefresh

namespace DuckdbLoki

open LokiCatalog

section Readings

def Caller.reading : Caller → Option ℤ
  | .ttl nowNs => some nowNs
  | .pragma => none

def Task.reading : Task → Option ℤ
  | .checking nowNs | .rechecking nowNs | .storing nowNs => some nowNs
  | .locking caller | .fetching caller _ | .building caller _ _ | .publishing caller _
  | .refreshed caller _ | .releasing caller _ => caller.reading
  | _ => none

def CatalogState.Timely (s : CatalogState) : Prop :=
  ∀ (i : ℕ) (task : Task) (nowNs : ℤ), s.tasks[i]? = some task → task.reading = some nowNs →
    nowNs ≤ s.clock

variable {c : LokiCatalog} {s t shared : CatalogState} {i : ℕ} {old new : Task} {e : Event}
  {nowNs : ℤ}

theorem Move.reading (h : Move c s i old new e) (hnew : new.reading = some nowNs) :
    old.reading = some nowNs ∨ nowNs = s.clock := by
  cases h with
  | look | stamp => exact Or.inr (Option.some.inj hnew).symm
  | skip | early | busy | enter => cases hnew
  | _ => exact Or.inl hnew

theorem Turn.reading (h : Turn c s i old new shared e) (hnew : new.reading = some nowNs) :
    old.reading = some nowNs ∨ nowNs = s.clock := by
  cases h with
  | move hmove => exact hmove.reading hnew
  | tryLock | defer | publish => exact Or.inl hnew
  | _ => cases hnew

theorem Effect.timely (h : Effect c s t e) (hclock : s.clock ≤ t.clock) (hs : s.Timely) :
    t.Timely := by
  intro i task nowNs htask hreading
  apply le_trans _ hclock
  rcases h.task_cases htask with ⟨hsame, _⟩ | ⟨_, hspawn, _⟩ | ⟨old, shared, hold, hturn, _⟩
  · exact hs i task nowNs hsame hreading
  · cases hspawn <;> cases hreading
  · rcases hturn.reading hreading with hbefore | hnow
    · exact hs i old nowNs hold hbefore
    · exact hnow.le

def ClockForward (tr : CatalogTrace) : Prop := ∀ x ∈ tr, x.before.clock ≤ x.after.clock

theorem ClockForward.around {xs ys : CatalogTrace}
    {x : Machines.Transition CatalogState Action Event}
    (h : ClockForward (xs ++ x :: ys)) :
    ClockForward xs ∧ x.before.clock ≤ x.after.clock ∧ ClockForward ys := by
  obtain ⟨hbefore, hrest⟩ := List.forall_mem_append.mp h
  exact ⟨hbefore, List.forall_mem_cons.mp hrest⟩

theorem run_timely {s₀ : CatalogState} {tr : CatalogTrace} (h : c.initializeState nowNs = some s₀)
    (hrun : Machines.Run c.step s₀ tr t) (hclock : ClockForward tr) : t.Timely := by
  refine hrun.preserves (I := CatalogState.Timely) ?_ ?_
  · intro i task nowNs htask
    rw [initializeState_tasks h, List.getElem?_nil] at htask
    cases htask
  · exact fun x hx hvalid hs ↦ (step_effect hvalid).timely (hclock x hx) hs

end Readings

section Floor

/-- The time of the attempt a starting transaction is making. -/
def Task.attempt : Task → Option ℤ
  | .fetching caller _ | .building caller _ _ | .publishing caller _ | .refreshed caller _ =>
    caller.reading
  | _ => none

/-- No attempt is under way, or will be made, with an earlier time. -/
structure CatalogState.Floor (bound : ℤ) (s : CatalogState) : Prop where
  deadline : bound ≤ s.nextCheckNs
  attempts : ∀ (i : ℕ) (task : Task) (nowNs : ℤ), s.tasks[i]? = some task →
    task.attempt = some nowNs → bound ≤ nowNs

variable {c : LokiCatalog} {s t shared : CatalogState} {i : ℕ} {old new : Task} {e : Event}
  {nowNs bound : ℤ}

theorem Spawned.attempt {task : Task} (h : Spawned c s task e) : task.attempt = none := by
  cases h <;> rfl

theorem Turn.attempt (h : Turn c s i old new shared e) (hnew : new.attempt = some nowNs) :
    old.attempt = some nowNs ∨ s.nextCheckNs ≤ nowNs := by
  cases h with
  | move hmove =>
    cases hmove with
    | attempt hdue => exact Or.inr (hdue.trans_eq (Option.some.inj hnew))
    | reply | failFetch | unchanged | changed | built | failBuild => exact Or.inl hnew
    | _ => cases hnew
  | publish => exact Or.inl hnew
  | _ => cases hnew

theorem Turn.attempt_next (h : Turn c s i old new shared e) (hold : old.attempt = some nowNs) :
    new.attempt = some nowNs ∨ ∃ error, old = .refreshed (.ttl nowNs) error ∧
      new = .releasing (.ttl nowNs) none ∧ shared.nextCheckNs = nowNs + c.delay error := by
  cases h with
  | move hmove =>
    cases hmove with
    | reply | failFetch | unchanged | changed | built | failBuild => exact Or.inl hold
    | _ => cases hold
  | publish => exact Or.inl hold
  | defer nowNs' error =>
    obtain rfl := Option.some.inj hold
    exact Or.inr ⟨error, rfl, rfl, rfl⟩
  | _ => cases hold

theorem le_delay (c : LokiCatalog) (error : Option Str) : c.config.labelCacheTtlNs ≤ c.delay error := by
  rw [delay]
  split_ifs
  · exact le_rfl
  · exact le_max_left _ _

theorem Effect.deadline (h : Effect c s t e) : t.nextCheckNs = s.nextCheckNs ∨
    (∃ (i : ℕ) (nowNs : ℤ) (error : Option Str), s.tasks[i]? = some (.refreshed (.ttl nowNs) error) ∧
      t.nextCheckNs = nowNs + c.delay error) ∨ ∃ i, e = .stored i := by
  cases h with
  | turn hold hturn =>
    cases hturn with
    | defer nowNs error => exact Or.inr (Or.inl ⟨_, nowNs, error, hold, rfl⟩)
    | store nowNs => exact Or.inr (Or.inr ⟨_, rfl⟩)
    | _ => exact Or.inl rfl
  | _ => exact Or.inl rfl

theorem Effect.of_stored (h : Effect c s t (.stored i)) : ∃ stamp : ℤ,
    s.tasks[i]? = some (.storing stamp) ∧ t.nextCheckNs = stamp + c.config.labelCacheTtlNs := by
  cases h with
  | spawn hspawn => cases hspawn
  | turn hold hturn =>
    cases hturn with
    | move hmove => cases hmove
    | store stamp => exact ⟨stamp, hold, rfl⟩

/-- Attempts keep the floor; so does the `PRAGMA` where it does not set an
earlier deadline. -/
theorem Effect.floor (httl : 0 ≤ c.config.labelCacheTtlNs) (h : Effect c s t e)
    (hs : s.Floor bound) (hstored : ∀ i, e = .stored i → bound ≤ t.nextCheckNs) :
    t.Floor bound := by
  constructor
  · rcases h.deadline with heq | ⟨i, nowNs, error, htask, heq⟩ | ⟨i, hevent⟩
    · exact heq ▸ hs.deadline
    · rw [heq]
      have hbound := hs.attempts i _ nowNs htask rfl
      have hdelay := httl.trans (le_delay c error)
      omega
    · exact hstored i hevent
  · intro i task nowNs htask hattempt
    rcases h.task_cases htask with ⟨hsame, _⟩ | ⟨_, hspawn, _⟩ | ⟨old, shared, hold, hturn, _⟩
    · exact hs.attempts i task nowNs hsame hattempt
    · rw [hspawn.attempt] at hattempt
      cases hattempt
    · rcases hturn.attempt hattempt with hbefore | hdue
      · exact hs.attempts i old nowNs hold hbefore
      · exact hs.deadline.trans hdue

end Floor

section Attempts

def Task.settled : Task → Bool
  | .releasing _ _ | .pinning | .pinned _ | .live _ | .looking _ _ _ | .finished => true
  | _ => false

structure Attempted (c : LokiCatalog) (i : ℕ) (nowNs : ℤ) (s : CatalogState) : Prop where
  locked : s.Locked
  clock : nowNs ≤ s.clock
  stamps : ∀ (j : ℕ) (stamp : ℤ), s.tasks[j]? = some (.storing stamp) → nowNs ≤ stamp
  stage : (∃ task, s.tasks[i]? = some task ∧ task.attempt = some nowNs) ∨
    s.Floor (nowNs + c.config.labelCacheTtlNs) ∧
      ∃ task, s.tasks[i]? = some task ∧ task.settled = true

variable {c : LokiCatalog} {s t shared : CatalogState} {i j : ℕ} {old new : Task} {e : Event}
  {nowNs bound : ℤ} {error : Option Str}

theorem inside_of_attempt {task : Task} (h : task.attempt = some nowNs) : task.inside = true := by
  cases task with
  | fetching | building | publishing | refreshed => rfl
  | _ => cases h

theorem Turn.settled (h : Turn c s i old new shared e) (hold : old.settled = true) :
    new.settled = true := by
  cases h with
  | move hmove =>
    cases hmove with
    | enter => rfl
    | _ => cases hold
  | unlock | finish | fail | pin | close | answer => rfl
  | _ => cases hold

theorem Turn.storing {stamp : ℤ} (h : Turn c s i old (.storing stamp) shared e) :
    stamp = s.clock := by
  cases h with
  | move hmove => cases hmove with | stamp => rfl

/-- The thread with the lock sets the deadline with no other attempt about. -/
theorem floor_of_release {caller : Caller} (ht : t.Locked)
    (hi : t.tasks[i]? = some (.releasing caller error)) (hbound : bound ≤ t.nextCheckNs) :
    t.Floor bound := by
  refine ⟨hbound, ?_⟩
  intro j task stamp hj hattempt
  have hij := ht.exclusive hj hi (inside_of_attempt hattempt) rfl
  rw [hij, hi] at hj
  rw [← Option.some.inj hj] at hattempt
  cases hattempt

theorem Effect.attempted (httl : 0 ≤ c.config.labelCacheTtlNs) (h : Effect c s t e)
    (hclock : s.clock ≤ t.clock) (hs : Attempted c i nowNs s) : Attempted c i nowNs t := by
  have hlocked := h.locked hs.locked
  refine ⟨hlocked, hs.clock.trans hclock, ?_, ?_⟩
  · intro j stamp hj
    rcases h.task_cases hj with ⟨hsame, _⟩ | ⟨_, hspawn, _⟩ | ⟨old, shared, _, hturn, _⟩
    · exact hs.stamps j stamp hsame
    · cases hspawn
    · rw [hturn.storing]
      exact hs.clock
  · rcases hs.stage with ⟨task, hi, hattempt⟩ | ⟨hfloor, task, hi, hsettled⟩
    · rcases h.thread_cases hi with ⟨hsame, _⟩ | ⟨new, shared, ht, hturn, heq⟩
      · exact Or.inl ⟨task, hsame, hattempt⟩
      · rcases hturn.attempt_next hattempt with hnext | ⟨error, _, hreleasing, hdeadline⟩
        · exact Or.inl ⟨new, ht, hnext⟩
        · rw [hreleasing] at ht
          refine Or.inr ⟨floor_of_release hlocked ht ?_, _, ht, rfl⟩
          rw [heq]
          apply le_trans _ hdeadline.ge
          exact Int.add_le_add_left (le_delay c error) nowNs
    · refine Or.inr ⟨h.floor httl hfloor ?_, ?_⟩
      · intro j hstored
        rw [hstored] at h
        obtain ⟨stamp, hj, heq⟩ := h.of_stored
        rw [heq]
        exact Int.add_le_add_right (hs.stamps j stamp hj) _
      · rcases h.thread_cases hi with ⟨hsame, _⟩ | ⟨new, shared, ht, hturn, _⟩
        · exact ⟨task, hsame, hsettled⟩
        · exact ⟨new, ht, hturn.settled hsettled⟩

theorem Effect.of_attempted (h : Effect c s t (.attempted i nowNs)) :
    s.tasks[i]? = some (.rechecking nowNs) ∧ s.nextCheckNs ≤ nowNs ∧
      t = s.put i (.fetching (.ttl nowNs) []) := by
  cases h with
  | spawn hspawn => cases hspawn
  | turn hold hturn => cases hturn with | move hmove => cases hmove with
    | attempt hdue => exact ⟨hold, hdue, rfl⟩

theorem Effect.of_failed {message : Str} (h : Effect c s t (.failed i message)) :
    ∃ (task : Task) (caller : Caller), s.tasks[i]? = some task ∧ task.settled = false ∧
      task.attempt = caller.reading ∧ t = s.put i (.refreshed caller (some message)) := by
  cases h with
  | spawn hspawn => cases hspawn
  | turn hold hturn => cases hturn with | move hmove => cases hmove with
    | failFetch | failBuild => exact ⟨_, _, hold, rfl, rfl, rfl⟩

theorem Effect.begin_attempt (h : Effect c s t (.attempted i nowNs)) (hlocked : s.Locked)
    (htimely : s.Timely) (hclock : s.clock ≤ t.clock) : Attempted c i nowNs t := by
  have ht := h.locked hlocked
  obtain ⟨hold, _, heq⟩ := h.of_attempted
  have hi : t.tasks[i]? = some (.fetching (.ttl nowNs) []) := by
    rw [heq, tasks_put hold, if_pos rfl]
  refine ⟨ht, (htimely i _ nowNs hold rfl).trans hclock, ?_, Or.inl ⟨_, hi, rfl⟩⟩
  intro j stamp hj
  have hij := ht.exclusive hj hi rfl rfl
  rw [hij, hi] at hj
  cases hj

theorem run_attempted {tr : CatalogTrace} (httl : 0 ≤ c.config.labelCacheTtlNs)
    (hrun : Machines.Run c.step s tr t) (hclock : ClockForward tr) (hs : Attempted c i nowNs s) :
    Attempted c i nowNs t :=
  hrun.preserves hs (fun x hx hvalid hs ↦ (step_effect hvalid).attempted httl (hclock x hx) hs)

/-- The next attempt finds the lock free, and so the deadline moved. -/
theorem Attempted.next {later : ℤ} (hs : Attempted c i nowNs s)
    (h : Effect c s t (.attempted j later)) : nowNs + c.config.labelCacheTtlNs ≤ later := by
  obtain ⟨hj, hdue, _⟩ := h.of_attempted
  rcases hs.stage with ⟨task, hi, hattempt⟩ | ⟨hfloor, _⟩
  · have hij := hs.locked.exclusive hi hj (inside_of_attempt hattempt) rfl
    rw [hij, hj] at hi
    rw [← Option.some.inj hi] at hattempt
    cases hattempt
  · exact hfloor.deadline.trans hdue

structure Failed (c : LokiCatalog) (i : ℕ) (nowNs : ℤ) (s : CatalogState) : Prop where
  locked : s.Locked
  stage : (∃ message, s.tasks[i]? = some (.refreshed (.ttl nowNs) (some message))) ∨
    s.Floor (nowNs + max c.config.labelCacheTtlNs refreshBackoffNs)

theorem Attempted.fails {message : Str} (hs : Attempted c i nowNs s)
    (h : Effect c s t (.failed i message)) : Failed c i nowNs t := by
  refine ⟨h.locked hs.locked, Or.inl ⟨message, ?_⟩⟩
  obtain ⟨task, caller, hi, hsettled, hattempt, heq⟩ := h.of_failed
  rw [heq, tasks_put hi, if_pos rfl]
  rcases hs.stage with ⟨other, hother, htime⟩ | ⟨_, other, hother, hdone⟩
  · rw [hi] at hother
    rw [← Option.some.inj hother, hattempt] at htime
    cases caller with
    | ttl stamp => rw [Option.some.inj htime]
    | pragma => cases htime
  · rw [hi] at hother
    rw [← Option.some.inj hother, hsettled] at hdone
    cases hdone

theorem Effect.failed (httl : 0 ≤ c.config.labelCacheTtlNs) (h : Effect c s t e)
    (hs : Failed c i nowNs s) (hstored : ∀ k, e ≠ .stored k) : Failed c i nowNs t := by
  have hlocked := h.locked hs.locked
  refine ⟨hlocked, ?_⟩
  rcases hs.stage with ⟨message, hi⟩ | hfloor
  · rcases h.thread_cases hi with ⟨hsame, _⟩ | ⟨new, shared, ht, hturn, heq⟩
    · exact Or.inl ⟨message, hsame⟩
    · cases hturn with
      | move hmove => cases hmove
      | defer =>
        refine Or.inr (floor_of_release hlocked ht ?_)
        rw [heq]
        exact le_rfl
  · exact Or.inr (h.floor httl hfloor (fun k hk ↦ absurd hk (hstored k)))

theorem Failed.next {later : ℤ} (hs : Failed c i nowNs s)
    (h : Effect c s t (.attempted j later)) :
    nowNs + max c.config.labelCacheTtlNs refreshBackoffNs ≤ later := by
  obtain ⟨hj, hdue, _⟩ := h.of_attempted
  rcases hs.stage with ⟨message, hi⟩ | hfloor
  · have hij := hs.locked.exclusive hi hj rfl rfl
    rw [hij, hj] at hi
    cases hi
  · exact hfloor.deadline.trans hdue

end Attempts

section Surviving

def Task.byPragma : Task → Bool
  | .locking caller | .fetching caller _ | .building caller _ _ | .publishing caller _
  | .refreshed caller _ | .releasing caller _ => caller.reading.isNone
  | .storing _ => true
  | _ => false

variable {c : LokiCatalog} {s t shared : CatalogState} {i : ℕ} {old new : Task} {e : Event}
  {nowNs : ℤ}

theorem Turn.byPragma (h : Turn c s i old new shared e) (hold : old.byPragma = false) :
    new.byPragma = false := by
  cases h with
  | move hmove =>
    cases hmove with
    | stamp | rethrow => cases hold
    | reply | failFetch | unchanged | changed | built | failBuild => exact hold
    | _ => rfl
  | publish => exact hold
  | lock | store => cases hold
  | _ => rfl

theorem Effect.of_errored {message : Str} (h : Effect c s t (.errored i message))
    (hi : s.tasks[i]? = some old) : old.byPragma = true := by
  cases h with
  | spawn hspawn =>
    cases hspawn
    rw [List.getElem?_eq_none le_rfl] at hi
    cases hi
  | turn hold hturn =>
    cases hturn with
    | move hmove => cases hmove
    | fail =>
      rw [hi] at hold
      rw [Option.some.inj hold]
      rfl

theorem run_byPragma {tr : CatalogTrace} (hrun : Machines.Run c.step s tr t)
    (hs : ∃ task, s.tasks[i]? = some task ∧ task.byPragma = false) :
    ∃ task, t.tasks[i]? = some task ∧ task.byPragma = false := by
  refine hrun.preserves (I := fun s ↦ ∃ task, s.tasks[i]? = some task ∧ task.byPragma = false)
    hs ?_
  intro x _ hvalid ⟨task, htask, hnot⟩
  rcases (step_effect hvalid).thread_cases htask with ⟨hsame, _⟩ | ⟨new, _, hnew, hturn, _⟩
  · exact ⟨task, hsame, hnot⟩
  · exact ⟨new, hnew, hturn.byPragma hnot⟩

theorem startTransaction_not_errored {tr : CatalogTrace} {x y : Machines.Transition CatalogState Action Event}
    {xs ys : CatalogTrace} {s₀ : CatalogState} {message : Str}
    (hrun : Machines.Run c.step s₀ (tr ++ x :: (xs ++ y :: ys)) t)
    (hx : x.action = .startTransaction) : y.event ≠ .errored x.before.tasks.length message := by
  intro hevent
  obtain ⟨_, hstart, hrest⟩ := hrun.around
  obtain ⟨hmid, hvalid, _⟩ := hrest.around
  have hspawned : x.after.tasks[x.before.tasks.length]? = some .starting := by
    rw [Machines.Transition.Valid, hx] at hstart
    have hafter := (Prod.mk.inj (Option.some.inj hstart)).1
    rw [← hafter, tasks_spawn, if_pos rfl]
  obtain ⟨task, htask, hnot⟩ := run_byPragma hmid ⟨_, hspawned, rfl⟩
  have heffect := step_effect hvalid
  rw [hevent] at heffect
  rw [heffect.of_errored htask] at hnot
  cases hnot

theorem step_advance {task : Task} (hi : s.tasks[i]? = some task) :
    c.step s (.advance i) = c.advance s i task := by
  rw [step, hi]
  rfl

/-- After its refresh, a starting transaction gets to its pin in four steps. -/
theorem transaction_starts {error : Option Str}
    (hi : s.tasks[i]? = some (.refreshed (.ttl nowNs) error))
    (hsum : InInt64 (nowNs + c.delay error)) :
    ∃ tr t, Machines.Run c.step s tr t ∧ tr.map Machines.Transition.action =
      List.replicate 4 (.advance i) ∧ t.tasks[i]? = some (.live s.current) := by
  let s₁ := { s with nextCheckNs := nowNs + c.delay error }.put i (.releasing (.ttl nowNs) none)
  let s₂ := { s₁ with refreshLock := none }.put i .pinning
  let s₃ := s₂.put i (.pinned s.current)
  let s₄ := s₃.put i (.live s.current)
  have h₁ : s₁.tasks[i]? = some (.releasing (.ttl nowNs) none) := by
    rw [tasks_put (s := { s with nextCheckNs := nowNs + c.delay error }) hi, if_pos rfl]
  have h₂ : s₂.tasks[i]? = some .pinning := by
    rw [tasks_put (s := { s₁ with refreshLock := none }) h₁, if_pos rfl]
  have h₃ : s₃.tasks[i]? = some (.pinned s.current) := by rw [tasks_put h₂, if_pos rfl]
  have h₄ : s₄.tasks[i]? = some (.live s.current) := by rw [tasks_put h₃, if_pos rfl]
  have hstep₁ : c.step s (.advance i) = some (s₁, .silent) := by
    rw [step_advance hi, advance, checked_of_inInt64 hsum]
    rfl
  have hstep₂ : c.step s₁ (.advance i) = some (s₂, .silent) := step_advance h₁
  have hstep₃ : c.step s₂ (.advance i) = some (s₃, .pinned i s.current) := step_advance h₂
  have hstep₄ : c.step s₃ (.advance i) = some (s₄, .silent) := step_advance h₃
  exact ⟨_, s₄, .snoc (.snoc (.snoc (.snoc .nil hstep₁) hstep₂) hstep₃) hstep₄, rfl, h₄⟩

end Surviving

section Deadlines

variable {c : LokiCatalog} {t s₀ : CatalogState} {tr : CatalogTrace} {nowNs : ℤ}

theorem attempts_apart {xs mid ys : CatalogTrace}
    {x y : Machines.Transition CatalogState Action Event} {i j : ℕ} {earlier later : ℤ}
    (httl : 0 ≤ c.config.labelCacheTtlNs) (h : c.initializeState nowNs = some s₀)
    (hrun : Machines.Run c.step s₀ (xs ++ x :: (mid ++ y :: ys)) t)
    (hclock : ClockForward (xs ++ x :: (mid ++ y :: ys)))
    (hx : x.event = .attempted i earlier) (hy : y.event = .attempted j later) :
    earlier + c.config.labelCacheTtlNs ≤ later := by
  obtain ⟨hrises, hbegan, hclock⟩ := hclock.around
  obtain ⟨hbefore, hfirst, hrest⟩ := hrun.around
  obtain ⟨hmid, hlast, _⟩ := hrest.around
  have hbegin := step_effect hfirst
  have hnext := step_effect hlast
  rw [hx] at hbegin
  rw [hy] at hnext
  have hattempted := hbegin.begin_attempt (run_locked h hbefore) (run_timely h hbefore hrises)
    hbegan
  exact (run_attempted httl hmid hclock.around.1 hattempted).next hnext

theorem attempts_back_off {xs mid ys : CatalogTrace}
    {x y z : Machines.Transition CatalogState Action Event} {i j : ℕ} {earlier later : ℤ}
    {message : Str} (httl : 0 ≤ c.config.labelCacheTtlNs) (h : c.initializeState nowNs = some s₀)
    (hrun : Machines.Run c.step s₀ (xs ++ x :: (mid ++ y :: ys)) t)
    (hclock : ClockForward (xs ++ x :: (mid ++ y :: ys)))
    (hx : x.event = .attempted i earlier) (hy : y.event = .attempted j later) (hz : z ∈ mid)
    (hfailed : z.event = .failed i message) (hstored : ∀ w ∈ mid, ∀ k, w.event ≠ .stored k) :
    earlier + max c.config.labelCacheTtlNs refreshBackoffNs ≤ later := by
  obtain ⟨hbefore, hfirst, hrest⟩ := hrun.around
  obtain ⟨hmid, hlast, _⟩ := hrest.around
  obtain ⟨before, after, hsplit⟩ := List.append_of_mem hz
  rw [hsplit] at hmid hclock hstored
  obtain ⟨hrises, hbegan, hclock⟩ := hclock.around
  obtain ⟨hto, hfail, hfrom⟩ := hmid.around
  have hbegin := step_effect hfirst
  have hfails := step_effect hfail
  have hnext := step_effect hlast
  rw [hx] at hbegin
  rw [hfailed] at hfails
  rw [hy] at hnext
  have hattempted := hbegin.begin_attempt (run_locked h hbefore) (run_timely h hbefore hrises)
    hbegan
  have hdown := (run_attempted httl hto hclock.around.1.around.1 hattempted).fails hfails
  refine (hfrom.preserves (I := Failed c i earlier) hdown ?_).next hnext
  intro w hw hvalid hdown
  apply (step_effect hvalid).failed httl hdown
  exact hstored w (List.mem_append_right _ (List.mem_cons_of_mem _ hw))

/-- In every run, one refresh is under way at a time; starting transactions
make attempts a TTL apart, or longer after one that failed; and none of them
fails. -/
theorem refresh_deadlines (httl : 0 < c.config.labelCacheTtlNs)
    (h : c.initializeState nowNs = some s₀) (hrun : Machines.Run c.step s₀ tr t)
    (hclock : ClockForward tr) :
    (∀ (i j : ℕ) (task other : Task), t.tasks[i]? = some task → t.tasks[j]? = some other →
      task.inside = true → other.inside = true → i = j) ∧
      (∀ (xs mid ys : CatalogTrace) (x y : Machines.Transition CatalogState Action Event)
          (i j : ℕ) (earlier later : ℤ), tr = xs ++ x :: (mid ++ y :: ys) →
        x.event = .attempted i earlier → y.event = .attempted j later →
        earlier + c.config.labelCacheTtlNs ≤ later ∧
          ((∃ z ∈ mid, ∃ message, z.event = .failed i message) →
            (∀ w ∈ mid, ∀ k, w.event ≠ .stored k) →
            earlier + max c.config.labelCacheTtlNs refreshBackoffNs ≤ later)) ∧
      (∀ (xs ys : CatalogTrace) (x y : Machines.Transition CatalogState Action Event)
          (message : Str), tr = xs ++ x :: ys → x.action = .startTransaction → y ∈ ys →
        y.event ≠ .errored x.before.tasks.length message) ∧
      ∀ (i : ℕ) (readNs : ℤ) (message : Str),
        t.tasks[i]? = some (.refreshed (.ttl readNs) (some message)) →
        InInt64 (readNs + max c.config.labelCacheTtlNs refreshBackoffNs) →
        ∃ tr' u, Machines.Run c.step t tr' u ∧
          tr'.map Machines.Transition.action = List.replicate 4 (.advance i) ∧
          u.tasks[i]? = some (.live t.current) := by
  refine ⟨?_, ?_, ?_, ?_⟩
  · intro i j task other hi hj hin hin'
    exact (run_locked h hrun).exclusive hi hj hin hin'
  · intro xs mid ys x y i j earlier later hsplit hx hy
    rw [hsplit] at hrun hclock
    refine ⟨attempts_apart httl.le h hrun hclock hx hy, ?_⟩
    intro ⟨z, hz, message, hfailed⟩ hstored
    exact attempts_back_off httl.le h hrun hclock hx hy hz hfailed hstored
  · intro xs ys x y message hsplit hx hy
    obtain ⟨before, after, hys⟩ := List.append_of_mem hy
    rw [hsplit, hys] at hrun
    exact startTransaction_not_errored hrun hx
  · intro i readNs message hi hsum
    exact transaction_starts hi hsum

theorem refresh_deadlines_sample : ∃ s₀ tr t message, appLabels.initializeState 0 = some s₀ ∧
    Machines.Run appLabels.step s₀ tr t ∧
      t.tasks[3]? = some (.refreshed (.ttl 20) (some message)) ∧
      ∃ tr' u, Machines.Run appLabels.step t tr' u ∧
        tr'.map Machines.Transition.action = List.replicate 4 (.advance 3) ∧
        u.tasks[3]? = some (.live (some 1)) := by
  obtain ⟨s₀, tr, t, hs₀, hrun, heq, hcurrent, _⟩ := sampleRun_run
  have hfailed : sampleRun.map (fun x ↦ x.2.tasks[3]?) = some (some (.refreshed (.ttl 20)
      (some (("ATTACH (TYPE loki): label auto-discovery request to " ++
        "Loki failed: Could not establish connection").toList)))) := by decide +kernel
  rw [heq] at hfailed
  have hi := Option.some.inj hfailed
  have hclock : sampleRun.map (fun x ↦ x.1.all
      (fun y ↦ decide (y.before.clock ≤ y.after.clock))) = some true := by decide +kernel
  rw [heq] at hclock
  have hrises : ClockForward tr := by
    intro x hx
    exact of_decide_eq_true (List.all_eq_true.mp (Option.some.inj hclock) x hx)
  obtain ⟨_, _, _, hstarts⟩ := refresh_deadlines (c := appLabels) (by decide) hs₀ hrun hrises
  refine ⟨s₀, tr, t, _, hs₀, hrun, hi, ?_⟩
  have hlive := hstarts 3 20 _ hi (by decide)
  rwa [hcurrent] at hlive

end Deadlines

end DuckdbLoki
