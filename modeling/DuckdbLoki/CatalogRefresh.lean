import DuckdbLoki.CatalogSnapshots

namespace DuckdbLoki

open LokiCatalog

section Lock

def Task.inside : Task → Bool
  | .rechecking _ | .fetching _ _ | .building _ _ _ | .publishing _ _ | .refreshed _ _
  | .storing _ | .releasing _ _ => true
  | _ => false

structure CatalogState.Locked (s : CatalogState) : Prop where
  holder : ∀ i, s.refreshLock = some i → ∃ task, s.tasks[i]? = some task ∧ task.inside = true
  inside : ∀ i task, s.tasks[i]? = some task → task.inside = true → s.refreshLock = some i

variable {c : LokiCatalog} {s t shared : CatalogState} {i : ℕ} {old new : Task} {e : Event}

theorem Move.inside (h : Move c s i old new e) : new.inside = old.inside := by
  cases h <;> rfl

theorem Spawned.outside {task : Task} (h : Spawned c s task e) : task.inside = false := by
  cases h <;> rfl

inductive LockTurn (s : CatalogState) (i : ℕ) (old new : Task) (shared : CatalogState) : Prop
  | keep : shared.refreshLock = s.refreshLock → new.inside = old.inside → LockTurn s i old new shared
  | take : s.refreshLock = none → shared.refreshLock = some i → new.inside = true →
      LockTurn s i old new shared
  | leave : old.inside = true → shared.refreshLock = none → new.inside = false →
      LockTurn s i old new shared

theorem Turn.lockTurn (h : Turn c s i old new shared e) : LockTurn s i old new shared := by
  cases h with
  | move hmove => exact .keep rfl hmove.inside
  | tryLock _ hfree | lock hfree => exact .take hfree rfl rfl
  | unlock | finish | fail => exact .leave rfl rfl rfl
  | _ => exact .keep rfl rfl

theorem Turn.locked (hs : s.Locked) (hold : s.tasks[i]? = some old)
    (h : Turn c s i old new shared e) : (shared.put i new).Locked := by
  have htasks := h.tasks_put hold
  cases h.lockTurn with
  | keep hlock hinside =>
    constructor
    · intro j hj
      obtain ⟨task, htask, hin⟩ := hs.holder j (hlock ▸ hj)
      rw [htasks]
      split_ifs with hji
      · rw [hji, hold] at htask
        exact ⟨new, rfl, hinside.trans (Option.some.inj htask ▸ hin)⟩
      · exact ⟨task, htask, hin⟩
    · intro j task htask hin
      rw [htasks] at htask
      change shared.refreshLock = some j
      rw [hlock]
      split_ifs at htask with hji
      · rw [hji]
        apply hs.inside i old hold
        rw [← hinside, Option.some.inj htask, hin]
      · exact hs.inside j task htask hin
  | take hfree hlock hinside =>
    constructor
    · intro j hj
      have hji : i = j := Option.some.inj (hlock.symm.trans hj)
      rw [htasks, if_pos hji.symm]
      exact ⟨new, rfl, hinside⟩
    · intro j task htask hin
      rw [htasks] at htask
      split_ifs at htask with hji
      · rw [hji]
        exact hlock
      · have hheld := hs.inside j task htask hin
        rw [hfree] at hheld
        cases hheld
  | leave hin hlock hinside =>
    have hheld := hs.inside i old hold hin
    constructor
    · intro j hj
      have hnone : none = some j := hlock.symm.trans hj
      cases hnone
    · intro j task htask hin'
      rw [htasks] at htask
      split_ifs at htask with hji
      · rw [← Option.some.inj htask, hinside] at hin'
        cases hin'
      · have hheld' := hs.inside j task htask hin'
        exact absurd (Option.some.inj (hheld'.symm.trans hheld)) hji

theorem Effect.locked (h : Effect c s t e) (hs : s.Locked) : t.Locked := by
  cases h with
  | tick => exact ⟨hs.holder, hs.inside⟩
  | spawn hspawn =>
    constructor
    · intro j hj
      obtain ⟨task, htask, hin⟩ := hs.holder j hj
      refine ⟨task, ?_, hin⟩
      rw [tasks_spawn, if_neg (List.getElem?_eq_some_iff.mp htask).1.ne, htask]
    · intro j task htask hin
      rw [tasks_spawn] at htask
      split_ifs at htask with hj
      · rw [← Option.some.inj htask, hspawn.outside] at hin
        cases hin
      · exact hs.inside j task htask hin
  | turn hold hturn => exact hturn.locked hs hold

theorem CatalogState.Locked.exclusive (hs : s.Locked) {j : ℕ} {task other : Task}
    (hi : s.tasks[i]? = some task) (hj : s.tasks[j]? = some other) (hin : task.inside = true)
    (hin' : other.inside = true) : i = j :=
  Option.some.inj ((hs.inside i task hi hin).symm.trans (hs.inside j other hj hin'))

theorem run_locked {nowNs : ℤ} {s₀ : CatalogState} {tr : CatalogTrace}
    (h : c.initializeState nowNs = some s₀) (hrun : Machines.Run c.step s₀ tr t) : t.Locked := by
  apply hrun.invariant (fun _ _ _ _ hs hstep ↦ (step_effect hstep).locked hs)
  obtain ⟨snapshot, _, heq⟩ := initializeState_eq h
  rw [heq]
  constructor
  · intro i hi
    cases hi
  · intro i task htask
    rw [List.getElem?_nil] at htask
    cases htask

end Lock

section View

def Event.reply (i : ℕ) : Event → Option (HttpCall × List Str)
  | .replied j call names => if j = i then some (call, names) else none
  | _ => none

def Event.failure (i : ℕ) : Event → Option Str
  | .failed j message => if j = i then some message else none
  | _ => none

def Event.publication : Event → Option (ℕ × ℕ)
  | .published i g => some (i, g)
  | _ => none

def repliesTo (i : ℕ) (tr : CatalogTrace) : List (HttpCall × List Str) :=
  Machines.shown (Event.reply i) tr

def failuresOf (i : ℕ) (tr : CatalogTrace) : List Str := Machines.shown (Event.failure i) tr

def publicationsIn (tr : CatalogTrace) : List (ℕ × ℕ) := Machines.shown Event.publication tr

/-- What a refresh by a thread has to do with a run: its own requests and the
published generations. -/
structure RefreshView where
  replies : List (HttpCall × List Str)
  failures : List Str
  publications : List (ℕ × ℕ)
  current : SnapshotPtr
  retired : List SnapshotPtr
  heap : List LokiCatalogSnapshot

def refreshView (i : ℕ) (tr : CatalogTrace) (t : CatalogState) : RefreshView :=
  ⟨repliesTo i tr, failuresOf i tr, publicationsIn tr, t.current, t.retired, t.heap⟩

variable {c : LokiCatalog} {s t : CatalogState} {i : ℕ} {e : Event} {tr : CatalogTrace}
  {x : Machines.Transition CatalogState Action Event}

theorem refreshView_snoc (i : ℕ) (tr : CatalogTrace)
    (x : Machines.Transition CatalogState Action Event) (t : CatalogState) :
    refreshView i (tr ++ [x]) t = ⟨repliesTo i tr ++ (x.event.reply i).toList,
      failuresOf i tr ++ (x.event.failure i).toList,
      publicationsIn tr ++ x.event.publication.toList, t.current, t.retired, t.heap⟩ := by
  rw [refreshView, repliesTo, failuresOf, publicationsIn, Machines.shown_snoc,
    Machines.shown_snoc, Machines.shown_snoc]
  rfl

theorem reply_of_thread_ne (h : e.thread ≠ some i) : e.reply i = none := by
  cases e with
  | replied j call names => exact if_neg (fun hj ↦ h (congrArg some hj))
  | _ => rfl

theorem failure_of_thread_ne (h : e.thread ≠ some i) : e.failure i = none := by
  cases e with
  | failed j message => exact if_neg (fun hj ↦ h (congrArg some hj))
  | _ => rfl

theorem refreshView_eq (hreply : x.event.reply i = none) (hfailure : x.event.failure i = none)
    (hpublication : x.event.publication = none) (hcurrent : t.current = s.current)
    (hretired : t.retired = s.retired) (hheap : t.heap = s.heap) :
    refreshView i (tr ++ [x]) t = refreshView i tr s := by
  rw [refreshView_snoc, hreply, hfailure, hpublication, hcurrent, hretired, hheap,
    Option.toList_none, Option.toList_none, Option.toList_none, List.append_nil, List.append_nil,
    List.append_nil]
  rfl

theorem Effect.refreshView_eq {task : Task} {a : Action} (h : Effect c s t e) (hs : s.Locked)
    (hi : s.tasks[i]? = some task) (hin : task.inside = true) (hthread : e.thread ≠ some i) :
    refreshView i (tr ++ [⟨s, a, e, t⟩]) t = refreshView i tr s := by
  have hreply := reply_of_thread_ne hthread
  have hfailure := failure_of_thread_ne hthread
  cases h with
  | tick => exact DuckdbLoki.refreshView_eq hreply hfailure rfl rfl rfl rfl
  | spawn hspawn =>
    apply DuckdbLoki.refreshView_eq hreply hfailure _ rfl rfl rfl
    cases hspawn <;> rfl
  | turn hold hturn =>
    cases hturn with
    | publish caller snapshot =>
      exact absurd (congrArg some (hs.exclusive hold hi rfl hin)) hthread
    | move hmove =>
      apply DuckdbLoki.refreshView_eq hreply hfailure _ rfl rfl rfl
      cases hmove <;> rfl
    | _ => exact DuckdbLoki.refreshView_eq hreply hfailure rfl rfl rfl rfl

end View

section Progress

structure LokiCatalog.Replied (c : LokiCatalog) (caller : Caller) (fetched : List (List Str))
    (replies : List (HttpCall × List Str)) : Prop where
  calls : replies.map Prod.fst =
    (c.config.tenants.take fetched.length).map (c.tenantCall caller)
  lists : replies.map Prod.snd = fetched
  length_le : fetched.length ≤ c.config.tenants.length
  promotable : ∀ names ∈ fetched, Promotable names

structure RefreshView.Untouched (v : RefreshView) (s : CatalogState) : Prop where
  publications : v.publications = []
  current : v.current = s.current
  retired : v.retired = s.retired
  heap : v.heap = s.heap

/-- What has come of a refresh that began in `s`, where `generation` was current. -/
inductive Outcome (c : LokiCatalog) (i : ℕ) (caller : Caller) (s : CatalogState)
    (generation : LokiCatalogSnapshot) (v : RefreshView) : Option Str → Prop
  | failed (message : Str) : v.failures = [message] →
      v.replies.length < c.config.tenants.length → v.Untouched s →
      Outcome c i caller s generation v (some message)
  | unchanged : v.failures = [] → c.Replied caller generation.labelColumns v.replies →
      generation.labelColumns.length = c.config.tenants.length → v.Untouched s →
      Outcome c i caller s generation v none
  | published {fetched : List (List Str)} : v.failures = [] → c.Replied caller fetched v.replies →
      fetched.length = c.config.tenants.length → generation.labelColumns ≠ fetched →
      v.publications = [(i, s.heap.length)] → v.current = some s.heap.length →
      v.heap = s.heap ++ [snapshotOf c.config fetched (generation.version + 1)] →
      Outcome c i caller s generation v none

def Progress (c : LokiCatalog) (i : ℕ) (caller : Caller) (s : CatalogState)
    (generation : LokiCatalogSnapshot) (v : RefreshView) : Task → Prop
  | .fetching caller' fetched => caller' = caller ∧ v.failures = [] ∧ v.Untouched s ∧
      c.Replied caller fetched v.replies
  | .building caller' fetched nextVersion => caller' = caller ∧ v.failures = [] ∧
      v.Untouched s ∧ c.Replied caller fetched v.replies ∧
      fetched.length = c.config.tenants.length ∧ generation.labelColumns ≠ fetched ∧
      nextVersion = generation.version + 1
  | .publishing caller' snapshot => caller' = caller ∧ v.failures = [] ∧ v.Untouched s ∧
      ∃ fetched, c.Replied caller fetched v.replies ∧
        fetched.length = c.config.tenants.length ∧ generation.labelColumns ≠ fetched ∧
        snapshot = snapshotOf c.config fetched (generation.version + 1)
  | .refreshed caller' error => caller' = caller ∧ Outcome c i caller s generation v error
  | .starting | .checking _ | .locking _ | .rechecking _ => False
  | _ => True

variable {c : LokiCatalog} {s t u shared : CatalogState} {i : ℕ} {caller : Caller}
  {generation : LokiCatalogSnapshot} {tr : CatalogTrace} {e : Event} {old new : Task} {a : Action}

theorem LokiCatalog.Replied.nil (c : LokiCatalog) (caller : Caller) : c.Replied caller [] [] :=
  ⟨rfl, rfl, Nat.zero_le _, nofun⟩

theorem LokiCatalog.Replied.snoc {fetched : List (List Str)} {replies : List (HttpCall × List Str)}
    (h : c.Replied caller fetched replies) {tenant : LokiTenant} {names : List Str}
    (htenant : c.config.tenants[fetched.length]? = some tenant) (hnames : Promotable names) :
    c.Replied caller (fetched ++ [names]) (replies ++ [(c.tenantCall caller tenant, names)]) := by
  refine ⟨?_, ?_, ?_, ?_⟩
  · rw [List.map_append, h.calls, List.length_append, List.length_singleton, List.take_add_one,
      htenant, List.map_append]
    rfl
  · rw [List.map_append, h.lists]
    rfl
  · rw [List.length_append, List.length_singleton]
    exact (List.getElem?_eq_some_iff.mp htenant).1
  · exact List.forall_mem_append.mpr ⟨h.promotable, List.forall_mem_singleton.mpr hnames⟩

theorem LokiCatalog.Replied.length_eq {fetched : List (List Str)} {replies : List (HttpCall × List Str)}
    (h : c.Replied caller fetched replies) : replies.length = fetched.length := by
  rw [← h.lists, List.length_map]

theorem LokiCatalog.Replied.discovered {fetched : List (List Str)} {replies : List (HttpCall × List Str)}
    (h : c.Replied caller fetched replies) (hlen : fetched.length = c.config.tenants.length) :
    Discovered c.config fetched := ⟨hlen, h.promotable⟩

theorem RefreshView.Untouched.deref (h : (refreshView i tr t).Untouched s) :
    t.deref t.current = s.deref s.current := by
  have hcurrent : t.current = s.current := h.current
  have hheap : t.heap = s.heap := h.heap
  rw [CatalogState.deref, hcurrent, hheap]
  rfl

theorem refreshView_put (hreply : e.reply i = none) (hfailure : e.failure i = none)
    (hpublication : e.publication = none) :
    refreshView i (tr ++ [⟨u, a, e, t⟩]) (u.put i new) = refreshView i tr u :=
  DuckdbLoki.refreshView_eq hreply hfailure hpublication rfl rfl rfl

theorem Move.progress (hgen : s.deref s.current = some generation)
    (hP : Progress c i caller s generation (refreshView i tr u) old) (h : Move c u i old new e) :
    Progress c i caller s generation
      (refreshView i (tr ++ [⟨u, a, e, t⟩]) (u.put i new)) new := by
  cases h with
  | skip | look | early | due | busy | overtaken | attempt => exact hP.elim
  | stamp | rethrow | enter => trivial
  | reply htenant hnames =>
    obtain ⟨hcaller, hfailures, huntouched, hreplied⟩ := hP
    rw [hcaller, refreshView_snoc]
    refine ⟨rfl, ?_, ⟨?_, huntouched.current, huntouched.retired, huntouched.heap⟩, ?_⟩
    · exact (List.append_nil _).trans hfailures
    · exact (List.append_nil _).trans huntouched.publications
    · rw [Event.reply, if_pos rfl]
      exact hreplied.snoc htenant (fetchLokiLabelNames_promotable hnames)
  | failFetch hlt =>
    obtain ⟨hcaller, hfailures, huntouched, hreplied⟩ := hP
    rw [refreshView_snoc]
    refine ⟨hcaller, .failed _ ?_ ?_ ⟨?_, huntouched.current, huntouched.retired, huntouched.heap⟩⟩
    · rw [show failuresOf i tr = [] from hfailures, Event.failure, if_pos rfl]
      rfl
    · rw [← hreplied.length_eq] at hlt
      exact (congrArg List.length (List.append_nil _)).trans_lt hlt
    · exact (List.append_nil _).trans huntouched.publications
  | unchanged hle hcurrent heq =>
    obtain ⟨hcaller, hfailures, huntouched, hreplied⟩ := hP
    rw [refreshView_put rfl rfl rfl]
    have hgeneration := hcurrent.symm.trans (huntouched.deref.trans hgen)
    rw [Option.some.inj hgeneration] at heq
    rw [← heq] at hreplied hle
    exact ⟨hcaller, .unchanged hfailures hreplied (hreplied.length_le.antisymm hle) huntouched⟩
  | changed hle hcurrent =>
    obtain ⟨hcaller, hfailures, huntouched, hreplied⟩ := hP
    rw [refreshView_put rfl rfl rfl]
    obtain ⟨hne, hversion⟩ := hcurrent generation (huntouched.deref.trans hgen)
    exact ⟨hcaller, hfailures, huntouched, hreplied, hreplied.length_le.antisymm hle, hne, hversion⟩
  | built hbuild =>
    obtain ⟨hcaller, hfailures, huntouched, hreplied, hlen, hne, hversion⟩ := hP
    rw [refreshView_put rfl rfl rfl]
    refine ⟨hcaller, hfailures, huntouched, _, hreplied, hlen, hne, ?_⟩
    rw [← hversion]
    exact eq_snapshotOf hbuild
  | failBuild hbuild =>
    obtain ⟨hcaller, hfailures, huntouched, hreplied, hlen, hne, hversion⟩ := hP
    rw [(hreplied.discovered hlen).buildSnapshot] at hbuild
    cases hbuild

theorem Turn.progress (hgen : s.deref s.current = some generation)
    (hP : Progress c i caller s generation (refreshView i tr u) old)
    (h : Turn c u i old new shared e) :
    Progress c i caller s generation
      (refreshView i (tr ++ [⟨u, a, e, t⟩]) (shared.put i new)) new := by
  cases h with
  | move hmove => exact hmove.progress hgen hP
  | tryLock | lock => exact hP.elim
  | publish caller' snapshot =>
    obtain ⟨hcaller, hfailures, huntouched, fetched, hreplied, hlen, hne, hsnapshot⟩ := hP
    have hheap : u.heap = s.heap := huntouched.heap
    have hlength : u.heap.length = s.heap.length := congrArg List.length hheap
    rw [refreshView_snoc]
    refine ⟨hcaller, @Outcome.published _ _ _ _ _ _ fetched ?_ ?_ hlen hne ?_ ?_ ?_⟩
    · exact (List.append_nil _).trans hfailures
    · exact (List.append_nil _).symm ▸ hreplied
    · rw [show publicationsIn tr = [] from huntouched.publications, ← hlength]
      rfl
    · exact congrArg some hlength
    · rw [← hsnapshot, ← hheap]
      rfl
  | _ => trivial

theorem Progress.inside {v : RefreshView} {task : Task}
    (hP : Progress c i caller s generation v task) :
    task.inside = true ∨ ∀ w, Progress c i caller s generation w task := by
  cases task with
  | fetching | building | publishing | refreshed => exact Or.inl rfl
  | starting | checking | locking | rechecking => exact hP.elim
  | _ => exact Or.inr (fun _ ↦ trivial)

/-- The refresh of a thread advances by its own steps, and only by them. -/
theorem Effect.progress (hgen : s.deref s.current = some generation) {task : Task}
    (hu : u.Locked) (hold : u.tasks[i]? = some task)
    (hP : Progress c i caller s generation (refreshView i tr u) task) (h : Effect c u t e) :
    ∃ new, t.tasks[i]? = some new ∧
      Progress c i caller s generation (refreshView i (tr ++ [⟨u, a, e, t⟩]) t) new := by
  rcases h.thread_cases hold with ⟨hsame, hthread⟩ | ⟨new, shared, hnew, hturn, heq⟩
  · refine ⟨task, hsame, ?_⟩
    rcases hP.inside with hin | hafter
    · rw [h.refreshView_eq hu hold hin hthread]
      exact hP
    · exact hafter _
  · refine ⟨new, hnew, ?_⟩
    rw [heq]
    exact hturn.progress hgen hP

/-- From the first request of a refresh on, a run keeps track of what becomes
of it. -/
theorem run_progress {s₀ : CatalogState} {nowNs : ℤ} {before : CatalogTrace}
    (h : c.initializeState nowNs = some s₀) (hbefore : Machines.Run c.step s₀ before s)
    (hgen : s.deref s.current = some generation) (hs : s.tasks[i]? = some (.fetching caller []))
    (hrun : Machines.Run c.step s tr t) :
    ∃ task, t.tasks[i]? = some task ∧
      Progress c i caller s generation (refreshView i tr t) task := by
  induction hrun with
  | nil =>
    exact ⟨_, hs, rfl, rfl, ⟨rfl, rfl, rfl, rfl⟩, .nil c caller⟩
  | @snoc tr u v a e hrun hstep ih =>
    obtain ⟨task, htask, hP⟩ := ih
    have hlocked := run_locked h (hbefore.trans hrun)
    exact (step_effect hstep).progress hgen hlocked htask hP

end Progress

end DuckdbLoki
