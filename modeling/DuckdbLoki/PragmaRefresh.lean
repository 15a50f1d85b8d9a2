import DuckdbLoki.CatalogFreshness
import DuckdbLoki.Machines.Projection

namespace DuckdbLoki

open LokiCatalog

section Model

/-- An attached database; it has a catalog here if the type of that is `loki`. -/
structure AttachedDatabase where
  name : Str
  catalog : Option LokiCatalog

/-- The databases in the order of the database manager, the transactions that
the connection has in them already, and the argument of the statement. -/
structure RefreshPragma where
  databases : List AttachedDatabase
  transactions : ℕ → Option ℕ
  argument : Option Str

inductive PragmaTask
  | next (todo : List ℕ)
  | joining (k i : ℕ) (todo : List ℕ)
  | refreshing (k i : ℕ) (todo : List ℕ)
  | returned (error : Option Str)
deriving DecidableEq

structure PragmaState where
  catalogs : ℕ → CatalogState
  task : PragmaTask

inductive PragmaAction
  | catalog (k : ℕ) (a : Action)
  | pragma

abbrev PragmaEvent := Option (ℕ × Action × Event)

namespace RefreshPragma

variable (p : RefreshPragma)

def catalogAt (k : ℕ) : Option LokiCatalog := (p.databases[k]?).bind AttachedDatabase.catalog

def notAttached (name : Str) : Str :=
  "PRAGMA loki_refresh_labels: no attached database named '".toList ++ name ++ "'".toList

def notLoki (name : Str) : Str :=
  "PRAGMA loki_refresh_labels: database '".toList ++ name ++
    "' is not an ATTACHed Loki database (TYPE loki)".toList

def begin : PragmaTask :=
  match p.argument with
  | none => .next (List.range p.databases.length)
  | some name =>
    match p.databases.findIdx? (fun db ↦ ciEquals db.name name) with
    | none => .returned (some (notAttached name))
    | some k => .next [k]

def catalogStep (catalogs : ℕ → CatalogState) (k : ℕ) (a : Action) :
    Option ((ℕ → CatalogState) × Event) :=
  (p.catalogAt k).bind (fun c ↦
    (c.step (catalogs k) a).map (fun (t, e) ↦ (Function.update catalogs k t, e)))

/-- A refresh that is over is one of the statement's if it waits for it. -/
def observe (catalogs : ℕ → CatalogState) (k : ℕ) (e : Event) : PragmaTask → PragmaTask
  | .refreshing k' i todo =>
    if k = k' ∧ (catalogs k).tasks[i]? = some .finished then
      match e with
      | .errored _ message => .returned (some message)
      | _ => .next todo
    else .refreshing k' i todo
  | task => task

def refreshOne (s : PragmaState) (k : ℕ) (c : LokiCatalog) (todo : List ℕ) :
    Option (PragmaState × PragmaEvent) :=
  if p.argument = none ∧ c.config.labelsPinned then some (⟨s.catalogs, .next todo⟩, none)
  else (p.catalogStep s.catalogs k .refreshLabels).map (fun (catalogs, e) ↦
    (⟨catalogs,
      match e with
      | .errored _ message => .returned (some message)
      | _ => .refreshing k (s.catalogs k).tasks.length todo⟩, some (k, .refreshLabels, e)))

/-- The next database; the transaction in it is started where there is none. -/
def visit (s : PragmaState) (k : ℕ) (todo : List ℕ) : Option (PragmaState × PragmaEvent) :=
  (p.databases[k]?).bind (fun db ↦
    match db.catalog with
    | none =>
      if p.argument = none then some (⟨s.catalogs, .next todo⟩, none)
      else some (⟨s.catalogs, .returned (some (notLoki db.name))⟩, none)
    | some c =>
      match p.transactions k with
      | some _ => p.refreshOne s k c todo
      | none => (p.catalogStep s.catalogs k .startTransaction).map (fun (catalogs, e) ↦
          (⟨catalogs, .joining k (s.catalogs k).tasks.length todo⟩,
            some (k, .startTransaction, e))))

def step (s : PragmaState) : PragmaAction → Option (PragmaState × PragmaEvent)
  | .catalog k a => (p.catalogStep s.catalogs k a).map (fun (catalogs, e) ↦
      (⟨catalogs, observe catalogs k e s.task⟩, some (k, a, e)))
  | .pragma =>
    match s.task with
    | .next [] => some (⟨s.catalogs, .returned none⟩, none)
    | .next (k :: todo) => p.visit s k todo
    | .joining k i todo =>
      (p.catalogAt k).bind (fun c ↦
        match (s.catalogs k).tasks[i]? with
        | some (.live _) => p.refreshOne s k c todo
        | _ => none)
    | .refreshing _ _ _ => none
    | .returned _ => none

end RefreshPragma

end Model

section Thread

variable {c : LokiCatalog} {s t u v : CatalogState} {i : ℕ} {tr : CatalogTrace} {a : Action}
  {e : Event} {task : Task}

def RefreshedIn (c : LokiCatalog) (i : ℕ) (s : CatalogState) (tr : CatalogTrace)
    (t : CatalogState) : Prop :=
  ∃ (first during rest : CatalogTrace) (u v : CatalogState),
    tr = first ++ during ++ rest ∧ Machines.Run c.step s first u ∧
    u.tasks[i]? = some (.fetching .pragma []) ∧ Machines.Run c.step u during v ∧
    v.tasks[i]? = some (.refreshed .pragma none) ∧ Machines.Run c.step v rest t

theorem RefreshedIn.trans {later : CatalogTrace} (h : RefreshedIn c i s tr t)
    (hlater : Machines.Run c.step t later u) : RefreshedIn c i s (tr ++ later) u := by
  obtain ⟨first, during, rest, v, w, hsplit, hfirst, hv, hduring, hw, hrest⟩ := h
  refine ⟨first, during, rest ++ later, v, w, ?_, hfirst, hv, hduring, hw, hrest.trans hlater⟩
  rw [hsplit, List.append_assoc]

theorem RefreshedIn.after {earlier : CatalogTrace} (h : RefreshedIn c i s tr t)
    (hearlier : Machines.Run c.step u earlier s) : RefreshedIn c i u (earlier ++ tr) t := by
  obtain ⟨first, during, rest, v, w, hsplit, hfirst, hv, hduring, hw, hrest⟩ := h
  refine ⟨earlier ++ first, during, rest, v, w, ?_, hearlier.trans hfirst, hv, hduring, hw,
    hrest⟩
  rw [hsplit, List.append_assoc, List.append_assoc, List.append_assoc]

def OnPragmaPath (c : LokiCatalog) (i : ℕ) (s : CatalogState) (tr : CatalogTrace)
    (t : CatalogState) : Task → Prop
  | .locking .pragma | .fetching .pragma _ | .building .pragma _ _ | .publishing .pragma _ => True
  | .refreshed .pragma (some _) | .releasing .pragma (some _) => True
  | .refreshed .pragma none | .storing _ | .releasing .pragma none => RefreshedIn c i s tr t
  | .finished => RefreshedIn c i s tr t ∨ ∃ x ∈ tr, ∃ message, x.event = .errored i message
  | _ => False

theorem OnPragmaPath.keep (h : OnPragmaPath c i s tr t task) (hstep : c.step t a = some (u, e)) :
    OnPragmaPath c i s (tr ++ [⟨t, a, e, u⟩]) u task := by
  have hmore : RefreshedIn c i s tr t → RefreshedIn c i s (tr ++ [⟨t, a, e, u⟩]) u :=
    fun h ↦ h.trans (.single hstep)
  cases task with
  | refreshed caller error | releasing caller error =>
    cases caller with
    | ttl nowNs => exact h
    | pragma =>
      cases error with
      | none => exact hmore h
      | some message => exact trivial
  | storing nowNs => exact hmore h
  | finished =>
    rcases h with h | ⟨x, hx, hmessage⟩
    · exact Or.inl (hmore h)
    · exact Or.inr ⟨x, List.mem_append_left _ hx, hmessage⟩
  | locking caller | fetching caller | building caller | publishing caller =>
    cases caller with
    | ttl nowNs => exact h
    | pragma => exact trivial
  | _ => exact h

theorem refreshedIn_of_refresher (hrun : Machines.Run c.step s tr t)
    (hs : s.tasks[i]? = some (.locking .pragma)) (hstep : c.step t a = some (u, e))
    (ht : t.tasks[i]? = some task) (htask : task.refresher = some .pragma)
    (hu : u.tasks[i]? = some (.refreshed .pragma none)) :
    RefreshedIn c i s (tr ++ [⟨t, a, e, u⟩]) u := by
  rcases run_began_since hrun ht htask with
    ⟨old, hold, hrefresher⟩ | ⟨first, during, v, hsplit, hfirst, hduring, hv⟩
  · rw [hs] at hold
    rw [← Option.some.inj hold] at hrefresher
    cases hrefresher
  · refine ⟨first, during ++ [⟨t, a, e, u⟩], [], v, u, ?_, hfirst, hv, .snoc hduring hstep, hu,
      .nil⟩
    rw [hsplit, List.append_nil, List.append_assoc]

theorem Turn.onPragmaPath {shared : CatalogState} {new : Task}
    (hturn : Turn c t i task new shared e) (hrun : Machines.Run c.step s tr t)
    (hs : s.tasks[i]? = some (.locking .pragma)) (hstep : c.step t a = some (u, e))
    (ht : t.tasks[i]? = some task) (hu : u.tasks[i]? = some new)
    (h : OnPragmaPath c i s tr t task) :
    OnPragmaPath c i s (tr ++ [⟨t, a, e, u⟩]) u new := by
  have hmore : RefreshedIn c i s tr t → RefreshedIn c i s (tr ++ [⟨t, a, e, u⟩]) u :=
    fun h ↦ h.trans (.single hstep)
  cases hturn with
  | move hmove =>
    cases hmove with
    | @reply caller | @failFetch caller | @changed caller | @built caller | @failBuild caller =>
      cases caller with
      | ttl nowNs => exact h.elim
      | pragma => exact trivial
    | @unchanged caller =>
      cases caller with
      | ttl nowNs => exact h.elim
      | pragma => exact refreshedIn_of_refresher hrun hs hstep ht rfl hu
    | stamp => exact hmore h
    | rethrow => exact trivial
    | _ => exact h.elim
  | lock => exact trivial
  | store => exact hmore h
  | finish => exact Or.inl (hmore h)
  | fail message =>
    exact Or.inr ⟨_, List.mem_append_right _ List.mem_cons_self, message, rfl⟩
  | publish caller =>
    cases caller with
    | ttl nowNs => exact h.elim
    | pragma => exact refreshedIn_of_refresher hrun hs hstep ht rfl hu
  | _ => exact h.elim

theorem run_onPragmaPath (hrun : Machines.Run c.step s tr t)
    (hs : s.tasks[i]? = some (.locking .pragma)) :
    ∃ task, t.tasks[i]? = some task ∧ OnPragmaPath c i s tr t task := by
  induction hrun with
  | nil => exact ⟨_, hs, trivial⟩
  | snoc hrun hstep ih =>
    obtain ⟨task, htask, hpath⟩ := ih
    rcases (step_effect hstep).thread_cases htask with
      ⟨hsame, _⟩ | ⟨new, shared, hnew, hturn, _⟩
    · exact ⟨task, hsame, hpath.keep hstep⟩
    · exact ⟨new, hnew, hturn.onPragmaPath hrun hs hstep htask hnew hpath⟩

theorem Effect.finished_of_errored {message : Str} (h : Effect c s t (.errored i message)) :
    t.tasks[i]? = some .finished := by
  generalize he : Event.errored i message = e at h
  cases h with
  | tick => cases he
  | spawn hspawn =>
    cases hspawn with
    | refuse =>
      obtain ⟨rfl, _⟩ := Event.errored.inj he
      rw [tasks_spawn, if_pos rfl]
    | _ => cases he
  | turn hold hturn =>
    cases hturn with
    | fail =>
      obtain ⟨rfl, _⟩ := Event.errored.inj he
      rw [(Turn.fail (c := c) _).tasks_put hold, if_pos rfl]
    | move hmove => cases hmove <;> cases he
    | _ => cases he

theorem step_finished (h : c.step s a = some (t, e)) (hs : s.tasks[i]? = some .finished) :
    t.tasks[i]? = some .finished := by
  rcases (step_effect h).thread_cases hs with ⟨hsame, _⟩ | ⟨_, _, _, hturn, _⟩
  · exact hsame
  · cases hturn with
    | move hmove => cases hmove

theorem run_finished_of_errored (hrun : Machines.Run c.step s tr t) :
    ∀ x ∈ tr, ∀ message, x.event = .errored i message → t.tasks[i]? = some .finished := by
  intro x hx message herrored
  obtain ⟨first, last, hsplit⟩ := List.append_of_mem hx
  rw [hsplit] at hrun
  obtain ⟨_, hvalid, hlast⟩ := hrun.around
  have heffect := step_effect hvalid
  rw [herrored] at heffect
  refine hlast.invariant (I := fun v ↦ v.tasks[i]? = some .finished) ?_ heffect.finished_of_errored
  exact fun _ _ _ _ hv hnext ↦ step_finished hnext hv

/-- A thread of the `PRAGMA` that ends without an error has refreshed the labels. -/
theorem refreshedIn_of_finished (hrun : Machines.Run c.step s tr t)
    (hs : s.tasks[i]? = some (.locking .pragma)) (ht : t.tasks[i]? ≠ some .finished)
    (hstep : c.step t a = some (u, e)) (hu : u.tasks[i]? = some .finished)
    (he : ∀ message, e ≠ .errored i message) : RefreshedIn c i s (tr ++ [⟨t, a, e, u⟩]) u := by
  obtain ⟨task, htask, hpath⟩ := run_onPragmaPath (.snoc hrun hstep) hs
  rw [hu] at htask
  rw [← Option.some.inj htask] at hpath
  rcases hpath with hrefreshed | ⟨x, hx, message, hmessage⟩
  · exact hrefreshed
  · rcases List.mem_append.mp hx with hbefore | hlast
    · exact absurd (run_finished_of_errored hrun x hbefore message hmessage) ht
    · rw [List.mem_singleton.mp hlast] at hmessage
      exact absurd hmessage (he message)

end Thread

section Statement

variable {p : RefreshPragma} {s t u : PragmaState} {k : ℕ} {c : LokiCatalog} {a : PragmaAction}
  {e : PragmaEvent} {todo : List ℕ}

def PragmaTask.At (k : ℕ) (todo : List ℕ) : PragmaTask → Prop
  | .next todo' => todo' = k :: todo
  | .joining k' _ todo' => k' = k ∧ todo' = todo
  | _ => False

inductive PragmaMove (p : RefreshPragma) (s : PragmaState) : PragmaTask → PragmaEvent → Prop
  | done : s.task = .next [] → PragmaMove p s (.returned none) none
  | skip {k : ℕ} {todo : List ℕ} : s.task.At k todo →
      (∀ c, p.catalogAt k = some c → c.config.labelsPinned = true) →
      PragmaMove p s (.next todo) none
  | refuse {k : ℕ} {todo : List ℕ} (message : Str) : s.task.At k todo →
      PragmaMove p s (.returned (some message)) none
  | join {k : ℕ} {todo : List ℕ} (i : ℕ) (e : Event) : s.task.At k todo →
      PragmaMove p s (.joining k i todo) (some (k, .startTransaction, e))
  | fail {k : ℕ} {todo : List ℕ} (message : Str) (e : Event) : s.task.At k todo →
      PragmaMove p s (.returned (some message)) (some (k, .refreshLabels, e))
  | refresh {k : ℕ} {todo : List ℕ} {c : LokiCatalog} {e : Event} : s.task.At k todo →
      p.catalogAt k = some c → c.config.labelsPinned = false →
      PragmaMove p s (.refreshing k (s.catalogs k).tasks.length todo) (some (k, .refreshLabels, e))

inductive PragmaStep (p : RefreshPragma) (s t : PragmaState) : PragmaAction → PragmaEvent → Prop
  | catalog {k : ℕ} {a : Action} {e : Event} :
      p.catalogStep s.catalogs k a = some (t.catalogs, e) →
      t.task = RefreshPragma.observe t.catalogs k e s.task →
      PragmaStep p s t (.catalog k a) (some (k, a, e))
  | pragma {e : PragmaEvent} : PragmaMove p s t.task e →
      (∀ k a e', e = some (k, a, e') → p.catalogStep s.catalogs k a = some (t.catalogs, e')) →
      (e = none → t.catalogs = s.catalogs) → PragmaStep p s t .pragma e

theorem exists_of_catalogStep {catalogs catalogs' : ℕ → CatalogState} {b : Action} {d : Event}
    (h : p.catalogStep catalogs k b = some (catalogs', d)) :
    ∃ c, p.catalogAt k = some c ∧ c.step (catalogs k) b = some (catalogs' k, d) ∧
      ∀ j, j ≠ k → catalogs' j = catalogs j := by
  obtain ⟨c, hc, h⟩ := Option.bind_eq_some_iff.mp h
  obtain ⟨⟨t, d'⟩, hstep, h⟩ := Option.map_eq_some_iff.mp h
  obtain ⟨rfl, rfl⟩ := Prod.mk.inj h
  refine ⟨c, hc, ?_, fun j hj ↦ Function.update_of_ne hj _ _⟩
  rw [Function.update_self]
  exact hstep

theorem pragmaStep_of_refreshOne (hat : s.task.At k todo) (hc : p.catalogAt k = some c)
    (h : p.refreshOne s k c todo = some (t, e)) : PragmaStep p s t .pragma e := by
  unfold RefreshPragma.refreshOne at h
  split_ifs at h with hskip
  · obtain ⟨rfl, rfl⟩ := Prod.mk.inj (Option.some.inj h)
    refine .pragma (.skip hat ?_) nofun (fun _ ↦ rfl)
    intro c' hc'
    rw [← Option.some.inj (hc.symm.trans hc')]
    exact hskip.2
  · obtain ⟨⟨catalogs, d⟩, hcatalog, h⟩ := Option.map_eq_some_iff.mp h
    obtain ⟨rfl, rfl⟩ := Prod.mk.inj h
    refine .pragma ?_ ?_ nofun
    · obtain ⟨c', hc', hstep, _⟩ := exists_of_catalogStep hcatalog
      rw [← Option.some.inj (hc.symm.trans hc'), LokiCatalog.step] at hstep
      split_ifs at hstep with hpinned
      · obtain ⟨_, rfl⟩ := Prod.mk.inj (Option.some.inj hstep)
        exact .fail _ _ hat
      · obtain ⟨_, rfl⟩ := Prod.mk.inj (Option.some.inj hstep)
        exact .refresh hat hc (Bool.eq_false_of_not_eq_true hpinned)
    · intro k' a d' heq
      obtain ⟨rfl, rfl, rfl⟩ : k = k' ∧ Action.refreshLabels = a ∧ d = d' := by simpa using heq
      exact hcatalog

theorem pragmaStep_of_visit (hat : s.task.At k todo) (h : p.visit s k todo = some (t, e)) :
    PragmaStep p s t .pragma e := by
  obtain ⟨db, hdb, h⟩ := Option.bind_eq_some_iff.mp h
  have hcatalog : p.catalogAt k = db.catalog := by
    rw [RefreshPragma.catalogAt, hdb, Option.bind_some]
  cases hc : db.catalog with
  | none =>
    rw [hc] at h hcatalog
    dsimp only at h
    split_ifs at h
    · obtain ⟨rfl, rfl⟩ := Prod.mk.inj (Option.some.inj h)
      refine .pragma (.skip hat ?_) nofun (fun _ ↦ rfl)
      intro c hsome
      rw [hcatalog] at hsome
      cases hsome
    · obtain ⟨rfl, rfl⟩ := Prod.mk.inj (Option.some.inj h)
      exact .pragma (.refuse _ hat) nofun (fun _ ↦ rfl)
  | some c =>
    rw [hc] at h hcatalog
    dsimp only at h
    split at h
    · exact pragmaStep_of_refreshOne hat hcatalog h
    · obtain ⟨⟨catalogs, d⟩, hstart, h⟩ := Option.map_eq_some_iff.mp h
      obtain ⟨rfl, rfl⟩ := Prod.mk.inj h
      refine .pragma (.join _ _ hat) ?_ nofun
      intro k' a d' heq
      obtain ⟨rfl, rfl, rfl⟩ : k = k' ∧ Action.startTransaction = a ∧ d = d' := by simpa using heq
      exact hstart

theorem pragmaStep (h : p.step s a = some (t, e)) : PragmaStep p s t a e := by
  cases a with
  | catalog k b =>
    obtain ⟨⟨catalogs, d⟩, hcatalog, h⟩ := Option.map_eq_some_iff.mp h
    obtain ⟨rfl, rfl⟩ := Prod.mk.inj h
    exact .catalog hcatalog rfl
  | pragma =>
    cases htask : s.task with
    | next todo =>
      cases todo with
      | nil =>
        rw [RefreshPragma.step, htask] at h
        obtain ⟨rfl, rfl⟩ := Prod.mk.inj (Option.some.inj h)
        exact .pragma (.done htask) nofun (fun _ ↦ rfl)
      | cons k todo =>
        rw [RefreshPragma.step, htask] at h
        exact pragmaStep_of_visit (htask ▸ rfl) h
    | joining k i todo =>
      rw [RefreshPragma.step, htask] at h
      obtain ⟨c, hc, h⟩ := Option.bind_eq_some_iff.mp h
      split at h
      · exact pragmaStep_of_refreshOne (htask ▸ ⟨rfl, rfl⟩) hc h
      · cases h
    | refreshing | returned =>
      rw [RefreshPragma.step, htask] at h
      cases h

end Statement

section Catalogs

variable {p : RefreshPragma} {s t u : PragmaState} {k : ℕ} {c : LokiCatalog} {a : PragmaAction}
  {e : PragmaEvent}

abbrev PragmaTrace := List (Machines.Transition PragmaState PragmaAction PragmaEvent)

def inCatalog (k : ℕ) (e : PragmaEvent) : Option (Action × Event) :=
  e.bind (fun (j, a, d) ↦ if j = k then some (a, d) else none)

def onCatalog (k : ℕ) (tr : PragmaTrace) : CatalogTrace :=
  Machines.project (·.catalogs k) (inCatalog k) tr

theorem of_inCatalog {b : Action} {d : Event} (h : inCatalog k e = some (b, d)) :
    e = some (k, b, d) := by
  obtain ⟨⟨j, b', d'⟩, heq, h⟩ := Option.bind_eq_some_iff.mp h
  obtain ⟨hj, h⟩ := Option.ite_none_right_eq_some.mp h
  rw [heq, hj, Option.some.inj h]

theorem inCatalog_self (b : Action) (d : Event) : inCatalog k (some (k, b, d)) = some (b, d) :=
  if_pos rfl

theorem PragmaStep.catalogStep {b : Action} {d : Event} (h : PragmaStep p s t a (some (k, b, d))) :
    p.catalogStep s.catalogs k b = some (t.catalogs, d) := by
  cases h with
  | catalog hstep => exact hstep
  | pragma _ hmoved => exact hmoved _ _ _ rfl

theorem PragmaStep.stays (h : PragmaStep p s t a e) (he : inCatalog k e = none) :
    t.catalogs k = s.catalogs k := by
  cases e with
  | none =>
    cases h with
    | pragma _ _ hstays => rw [hstays rfl]
  | some x =>
    obtain ⟨j, b, d⟩ := x
    obtain ⟨_, _, _, hother⟩ := exists_of_catalogStep h.catalogStep
    refine hother k ?_
    intro heq
    rw [heq, inCatalog_self] at he
    cases he

/-- In each catalog the statement and its surroundings are one more of its runs. -/
theorem projects_catalog (hc : p.catalogAt k = some c) :
    Machines.Projects p.step c.step (·.catalogs k) (inCatalog k) where
  moves := by
    intro s a t e b d hstep hpart
    rw [of_inCatalog hpart] at hstep
    obtain ⟨c', hc', hmoved, _⟩ := exists_of_catalogStep (pragmaStep hstep).catalogStep
    rw [Option.some.inj (hc.symm.trans hc')]
    exact hmoved
  stays := fun hstep hpart ↦ (pragmaStep hstep).stays hpart

theorem onCatalog_append (k : ℕ) (tr tr' : PragmaTrace) :
    onCatalog k (tr ++ tr') = onCatalog k tr ++ onCatalog k tr' := List.filterMap_append

theorem run_onCatalog {tr : PragmaTrace} (hrun : Machines.Run p.step s tr t)
    (hc : p.catalogAt k = some c) :
    Machines.Run c.step (s.catalogs k) (onCatalog k tr) (t.catalogs k) :=
  hrun.project (projects_catalog hc)

end Catalogs

section Visits

/-- The statement itself has started thread `i` of this database, to refresh it. -/
def StartedIn (k i : ℕ) (tr : PragmaTrace) : Prop :=
  ∃ x ∈ tr, x.action = .pragma ∧ (∃ e, x.event = some (k, .refreshLabels, e)) ∧
    (x.before.catalogs k).tasks.length = i

def ServedIn (p : RefreshPragma) (k : ℕ) (s : PragmaState) (tr : PragmaTrace) (t : PragmaState) :
    Prop :=
  ∀ c, p.catalogAt k = some c → c.config.labelsPinned = false →
    ∃ i, StartedIn k i tr ∧ RefreshedIn c i (s.catalogs k) (onCatalog k tr) (t.catalogs k)

structure Awaited (p : RefreshPragma) (k i : ℕ) (s : PragmaState) (tr : PragmaTrace)
    (t : PragmaState) : Prop where
  started : StartedIn k i tr
  unfinished : (t.catalogs k).tasks[i]? ≠ some .finished
  locking : ∀ c, p.catalogAt k = some c → ∃ (first rest : CatalogTrace) (u : CatalogState),
    onCatalog k tr = first ++ rest ∧ Machines.Run c.step (s.catalogs k) first u ∧
      u.tasks[i]? = some (.locking .pragma) ∧ Machines.Run c.step u rest (t.catalogs k)

def PragmaTask.Stands (current later : List ℕ) : PragmaTask → Prop
  | .next todo => current = [] ∧ later = todo
  | .joining k _ todo => current = [k] ∧ later = todo
  | .refreshing k _ todo => current = [k] ∧ later = todo
  | .returned none => current = [] ∧ later = []
  | .returned (some _) => ∃ k, current = [k]

/-- The statement itself has only done something in these databases. -/
def TouchedOnly (tr : PragmaTrace) (databases : List ℕ) : Prop :=
  ∀ x ∈ tr, x.action = .pragma → ∀ k a e, x.event = some (k, a, e) → k ∈ databases

/-- The databases that the statement is done with, where it is, and those to
which it has not come yet. -/
structure Visited (p : RefreshPragma) (s : PragmaState) (tr : PragmaTrace) (t : PragmaState)
    (done current later : List ℕ) : Prop where
  served : ∀ k ∈ done, ServedIn p k s tr t
  touched : TouchedOnly tr (done ++ current)
  stands : t.task.Stands current later
  awaited : ∀ k i todo, t.task = .refreshing k i todo → Awaited p k i s tr t

variable {p : RefreshPragma} {s t u : PragmaState} {tr : PragmaTrace} {k i : ℕ} {c : LokiCatalog}
  {a : PragmaAction} {e : PragmaEvent} {task : PragmaTask} {done current later todo : List ℕ}

theorem PragmaTask.At.stands (hat : task.At k todo) (h : task.Stands current later) :
    current ++ later = k :: todo ∧ current ⊆ [k] := by
  cases task with
  | next todo' =>
    obtain ⟨hcurrent, hlater⟩ := h
    rw [hcurrent, hlater]
    exact ⟨hat, List.nil_subset _⟩
  | joining k' i todo' =>
    obtain ⟨hcurrent, hlater⟩ := h
    obtain ⟨hk, htodo⟩ := hat
    rw [hcurrent, hlater, hk, htodo]
    exact ⟨rfl, List.Subset.refl _⟩
  | refreshing | returned => exact hat.elim

theorem TouchedOnly.snoc {ks ks' : List ℕ}
    {x : Machines.Transition PragmaState PragmaAction PragmaEvent} (h : TouchedOnly tr ks)
    (hsub : ks ⊆ ks')
    (hx : x.action = .pragma → ∀ k a e, x.event = some (k, a, e) → k ∈ ks') :
    TouchedOnly (tr ++ [x]) ks' := by
  refine List.forall_mem_append.mpr ⟨?_, List.forall_mem_singleton.mpr hx⟩
  exact fun y hy haction k a e hevent ↦ hsub (h y hy haction k a e hevent)

theorem TouchedOnly.visit {x : Machines.Transition PragmaState PragmaAction PragmaEvent}
    (h : TouchedOnly tr (done ++ current)) (hcurrent : current ⊆ [k])
    (hx : ∀ j a e, x.event = some (j, a, e) → j = k) : TouchedOnly (tr ++ [x]) (done ++ [k]) := by
  refine h.snoc ?_ ?_
  · exact List.append_subset.mpr ⟨List.subset_append_left _ _, fun _ hj ↦
      List.mem_append_right _ (hcurrent hj)⟩
  · intro _ j a e hevent
    rw [hx j a e hevent]
    exact List.mem_append_right _ List.mem_cons_self

theorem StartedIn.append (h : StartedIn k i tr) (later : PragmaTrace) :
    StartedIn k i (tr ++ later) := by
  obtain ⟨x, hx, hstarted⟩ := h
  exact ⟨x, List.mem_append_left _ hx, hstarted⟩

theorem ServedIn.keep (h : ServedIn p k s tr t) (hstep : p.step t a = some (u, e)) :
    ServedIn p k s (tr ++ [⟨t, a, e, u⟩]) u := by
  intro c hc hpinned
  obtain ⟨i, hstarted, hrefreshed⟩ := h c hc hpinned
  refine ⟨i, hstarted.append _, ?_⟩
  rw [onCatalog_append]
  exact hrefreshed.trans (run_onCatalog (.single hstep) hc)

theorem Awaited.keep (h : Awaited p k i s tr t) (hstep : p.step t a = some (u, e))
    (hu : (u.catalogs k).tasks[i]? ≠ some .finished) :
    Awaited p k i s (tr ++ [⟨t, a, e, u⟩]) u := by
  refine ⟨h.started.append _, hu, ?_⟩
  intro c hc
  obtain ⟨first, rest, v, hsplit, hfirst, hv, hrest⟩ := h.locking c hc
  refine ⟨first, rest ++ onCatalog k [⟨t, a, e, u⟩], v, ?_, hfirst, hv,
    hrest.trans (run_onCatalog (.single hstep) hc)⟩
  rw [onCatalog_append, hsplit, List.append_assoc]

theorem onCatalog_snoc (tr : PragmaTrace)
    (x : Machines.Transition PragmaState PragmaAction PragmaEvent) {b : Action} {d : Event}
    (hx : x.event = some (k, b, d)) :
    onCatalog k (tr ++ [x]) =
      onCatalog k tr ++ [⟨x.before.catalogs k, b, d, x.after.catalogs k⟩] := by
  rw [onCatalog, Machines.project_snoc, hx, inCatalog_self]
  rfl

/-- The thread that is awaited ends, and not with an error. -/
theorem Awaited.served {b : Action} {d : Event} (h : Awaited p k i s tr t)
    (hstep : p.step t a = some (u, some (k, b, d)))
    (hu : (u.catalogs k).tasks[i]? = some .finished) (hd : ∀ message, d ≠ .errored i message) :
    ServedIn p k s (tr ++ [⟨t, a, some (k, b, d), u⟩]) u := by
  intro c hc _
  obtain ⟨first, rest, v, hsplit, hfirst, hv, hrest⟩ := h.locking c hc
  have hmoved := (projects_catalog hc).moves hstep (inCatalog_self b d)
  refine ⟨i, h.started.append _, ?_⟩
  rw [onCatalog_snoc tr _ rfl, hsplit, List.append_assoc]
  exact (refreshedIn_of_finished hrest hv h.unfinished hmoved hu hd).after hfirst

theorem observe_cases (catalogs : ℕ → CatalogState) (k : ℕ) (d : Event) (task : PragmaTask) :
    (RefreshPragma.observe catalogs k d task = task ∧
      ∀ i todo, task = .refreshing k i todo → (catalogs k).tasks[i]? ≠ some .finished) ∨
    ∃ i todo, task = .refreshing k i todo ∧ (catalogs k).tasks[i]? = some .finished ∧
      ((∃ message, RefreshPragma.observe catalogs k d task = .returned (some message)) ∨
        (RefreshPragma.observe catalogs k d task = .next todo ∧
          ∀ j message, d ≠ .errored j message)) := by
  cases task with
  | refreshing k' i todo =>
    dsimp only [RefreshPragma.observe]
    split_ifs with hover
    · obtain ⟨rfl, hfinished⟩ := hover
      refine Or.inr ⟨i, todo, rfl, hfinished, ?_⟩
      cases d with
      | errored j message => exact Or.inl ⟨message, rfl⟩
      | _ => exact Or.inr ⟨rfl, nofun⟩
    · refine Or.inl ⟨rfl, ?_⟩
      intro i' todo' heq hfinished
      obtain ⟨rfl, rfl, rfl⟩ := PragmaTask.refreshing.inj heq
      exact hover ⟨rfl, hfinished⟩
  | _ => exact Or.inl ⟨rfl, nofun⟩

theorem Visited.visit (h : Visited p s tr t done current later) (hat : t.task.At k todo)
    (hstep : p.step t .pragma = some (u, e)) (hevent : ∀ j a d, e = some (j, a, d) → j = k)
    (hstands : u.task.Stands [k] todo)
    (hawaited : ∀ k i todo, u.task = .refreshing k i todo →
      Awaited p k i s (tr ++ [⟨t, .pragma, e, u⟩]) u) :
    done ++ current ++ later = done ++ [k] ++ todo ∧
      Visited p s (tr ++ [⟨t, .pragma, e, u⟩]) u done [k] todo := by
  obtain ⟨hrest, hcurrent⟩ := hat.stands h.stands
  refine ⟨?_, fun j hj ↦ (h.served j hj).keep hstep, h.touched.visit hcurrent hevent, hstands,
    hawaited⟩
  rw [List.append_assoc, hrest, List.append_cons]

theorem Visited.serve (h : Visited p s tr t done current later) (hstep : p.step t a = some (u, e))
    (hk : ServedIn p k s (tr ++ [⟨t, a, e, u⟩]) u)
    (htouched : TouchedOnly (tr ++ [⟨t, a, e, u⟩]) (done ++ [k])) (hu : u.task = .next todo) :
    Visited p s (tr ++ [⟨t, a, e, u⟩]) u (done ++ [k]) [] todo := by
  refine ⟨?_, ?_, ?_, ?_⟩
  · refine List.forall_mem_append.mpr ⟨?_, List.forall_mem_singleton.mpr hk⟩
    exact fun j hj ↦ (h.served j hj).keep hstep
  · rw [List.append_nil]
    exact htouched
  · rw [hu]
    exact ⟨rfl, rfl⟩
  · rw [hu]
    nofun

theorem Visited.skip (h : Visited p s tr t done current later) (hat : t.task.At k todo)
    (hpinned : ∀ c, p.catalogAt k = some c → c.config.labelsPinned = true)
    (hstep : p.step t .pragma = some (u, none)) (hu : u.task = .next todo) :
    done ++ current ++ later = done ++ [k] ++ [] ++ todo ∧
      Visited p s (tr ++ [⟨t, .pragma, none, u⟩]) u (done ++ [k]) [] todo := by
  obtain ⟨hrest, hcurrent⟩ := hat.stands h.stands
  refine ⟨?_, h.serve hstep ?_ (h.touched.visit hcurrent nofun) hu⟩
  · rw [List.append_assoc, hrest, List.append_nil, List.append_cons]
  · intro c hc hunpinned
    rw [hpinned c hc] at hunpinned
    cases hunpinned

theorem Visited.stay (h : Visited p s tr t done current later) (hstep : p.step t a = some (u, e))
    (ha : a ≠ .pragma) (hu : u.task = t.task)
    (hawaited : ∀ k i todo, t.task = .refreshing k i todo →
      (u.catalogs k).tasks[i]? ≠ some .finished) :
    Visited p s (tr ++ [⟨t, a, e, u⟩]) u done current later := by
  refine ⟨fun j hj ↦ (h.served j hj).keep hstep, ?_, ?_, ?_⟩
  · exact h.touched.snoc (List.Subset.refl _) (fun haction ↦ absurd haction ha)
  · rw [hu]
    exact h.stands
  · intro k i todo hrefreshing
    rw [hu] at hrefreshing
    exact (h.awaited k i todo hrefreshing).keep hstep (hawaited k i todo hrefreshing)

theorem Visited.over {b : Action} {d : Event} (h : Visited p s tr t done current later)
    (ht : t.task = .refreshing k i todo) (hstep : p.step t a = some (u, some (k, b, d)))
    (ha : a ≠ .pragma) (hu : (u.catalogs k).tasks[i]? = some .finished)
    (hd : ∀ message, d ≠ .errored i message) (hnext : u.task = .next todo) :
    done ++ current ++ later = done ++ [k] ++ [] ++ todo ∧
      Visited p s (tr ++ [⟨t, a, some (k, b, d), u⟩]) u (done ++ [k]) [] todo := by
  have hstands := h.stands
  rw [ht] at hstands
  obtain ⟨rfl, rfl⟩ := hstands
  refine ⟨by rw [List.append_nil], h.serve hstep ?_ ?_ hnext⟩
  · exact (h.awaited k i later ht).served hstep hu hd
  · exact h.touched.snoc (List.Subset.refl _) (fun haction ↦ absurd haction ha)

theorem Visited.throw {message : Str} (h : Visited p s tr t done current later)
    (ht : t.task = .refreshing k i todo) (hstep : p.step t a = some (u, e)) (ha : a ≠ .pragma)
    (hu : u.task = .returned (some message)) :
    Visited p s (tr ++ [⟨t, a, e, u⟩]) u done current later := by
  have hstands := h.stands
  rw [ht] at hstands
  refine ⟨fun j hj ↦ (h.served j hj).keep hstep, ?_, ?_, ?_⟩
  · exact h.touched.snoc (List.Subset.refl _) (fun haction ↦ absurd haction ha)
  · rw [hu]
    exact ⟨k, hstands.1⟩
  · rw [hu]
    nofun

theorem Visited.finish (h : Visited p s tr t done current later) (ht : t.task = .next [])
    (hstep : p.step t .pragma = some (u, none)) (hu : u.task = .returned none) :
    done ++ current ++ later = done ++ [] ++ [] ∧
      Visited p s (tr ++ [⟨t, .pragma, none, u⟩]) u done [] [] := by
  have hstands := h.stands
  rw [ht] at hstands
  obtain ⟨rfl, rfl⟩ := hstands
  refine ⟨rfl, fun j hj ↦ (h.served j hj).keep hstep, ?_, ?_, ?_⟩
  · exact h.touched.snoc (List.Subset.refl _) nofun
  · rw [hu]
    exact ⟨rfl, rfl⟩
  · rw [hu]
    nofun

theorem awaited_refreshLabels {d : Event} {tr : PragmaTrace} (hrun : Machines.Run p.step s tr t)
    (hstep : p.step t .pragma = some (u, some (k, .refreshLabels, d)))
    (hc : p.catalogAt k = some c) (hpinned : c.config.labelsPinned = false) :
    Awaited p k (t.catalogs k).tasks.length s
      (tr ++ [⟨t, .pragma, some (k, .refreshLabels, d), u⟩]) u := by
  have hmoved := (projects_catalog hc).moves hstep (inCatalog_self _ d)
  have hlocking : (u.catalogs k).tasks[(t.catalogs k).tasks.length]? = some (.locking .pragma) := by
    rw [LokiCatalog.step, hpinned, if_neg Bool.false_ne_true] at hmoved
    obtain ⟨heq, _⟩ := Prod.mk.inj (Option.some.inj hmoved)
    rw [← heq, tasks_spawn, if_pos rfl]
  refine ⟨⟨_, List.mem_append_right _ List.mem_cons_self, rfl, ⟨d, rfl⟩, rfl⟩, ?_, ?_⟩
  · rw [hlocking]
    intro heq
    cases heq
  · intro c' hc'
    rw [← Option.some.inj (hc.symm.trans hc')]
    exact ⟨_, [], u.catalogs k, (List.append_nil _).symm, run_onCatalog (.snoc hrun hstep) hc,
      hlocking, .nil⟩

theorem database_eq {j : ℕ} {b b' : Action} {d d' : Event}
    (h : (some (k, b, d) : PragmaEvent) = some (j, b', d')) : j = k :=
  (Prod.mk.inj (Option.some.inj h)).1.symm

theorem Visited.catalog {b : Action} {d : Event} (h : Visited p s tr t done current later)
    (hstep : p.step t (.catalog k b) = some (u, some (k, b, d)))
    (htask : u.task = RefreshPragma.observe u.catalogs k d t.task)
    (hother : ∀ j, j ≠ k → u.catalogs j = t.catalogs j) :
    ∃ done' current' later', done ++ current ++ later = done' ++ current' ++ later' ∧
      Visited p s (tr ++ [⟨t, .catalog k b, some (k, b, d), u⟩]) u done' current' later' := by
  rcases observe_cases u.catalogs k d t.task with
    ⟨hsame, hgoing⟩ | ⟨i, todo, ht, hfinished, ⟨message, hthrown⟩ | ⟨hnext, hd⟩⟩
  · rw [hsame] at htask
    refine ⟨done, current, later, rfl, h.stay hstep nofun htask ?_⟩
    intro j i todo hrefreshing
    by_cases hj : j = k
    · rw [hj] at hrefreshing ⊢
      exact hgoing i todo hrefreshing
    · rw [hother j hj]
      exact (h.awaited j i todo hrefreshing).unfinished
  · rw [hthrown] at htask
    exact ⟨done, current, later, rfl, h.throw ht hstep nofun htask⟩
  · rw [hnext] at htask
    exact ⟨_, _, _, h.over ht hstep nofun hfinished (hd i) htask⟩

/-- In each step the statement stays where it is, or gets on by a database. -/
theorem Visited.step (h : Visited p s tr t done current later) (hrun : Machines.Run p.step s tr t)
    (hstep : p.step t a = some (u, e)) :
    ∃ done' current' later', done ++ current ++ later = done' ++ current' ++ later' ∧
      Visited p s (tr ++ [⟨t, a, e, u⟩]) u done' current' later' := by
  cases pragmaStep hstep with
  | catalog hcatalog htask =>
    obtain ⟨_, _, _, hother⟩ := exists_of_catalogStep hcatalog
    exact h.catalog hstep htask hother
  | pragma hmove =>
    generalize hnew : u.task = new at hmove
    cases hmove with
    | done ht => exact ⟨done, [], [], h.finish ht hstep hnew⟩
    | skip hat hpinned => exact ⟨_, _, _, h.skip hat hpinned hstep hnew⟩
    | refuse message hat =>
      refine ⟨done, _, _, h.visit hat hstep nofun ?_ ?_⟩
      · rw [hnew]
        exact ⟨_, rfl⟩
      · rw [hnew]
        nofun
    | @join k todo i d hat =>
      refine ⟨done, [k], todo, h.visit hat hstep ?_ ?_ ?_⟩
      · exact fun _ _ _ heq ↦ database_eq heq
      · rw [hnew]
        exact ⟨rfl, rfl⟩
      · rw [hnew]
        nofun
    | @fail k todo message d hat =>
      refine ⟨done, [k], todo, h.visit hat hstep ?_ ?_ ?_⟩
      · exact fun _ _ _ heq ↦ database_eq heq
      · rw [hnew]
        exact ⟨_, rfl⟩
      · rw [hnew]
        nofun
    | @refresh k todo c d hat hc hpinned =>
      refine ⟨done, [k], todo, h.visit hat hstep ?_ ?_ ?_⟩
      · exact fun _ _ _ heq ↦ database_eq heq
      · rw [hnew]
        exact ⟨rfl, rfl⟩
      · intro j i todo' hrefreshing
        rw [hnew] at hrefreshing
        obtain ⟨rfl, rfl, rfl⟩ := PragmaTask.refreshing.inj hrefreshing
        exact awaited_refreshLabels hrun hstep hc hpinned

theorem run_visited {targets : List ℕ} (hs : s.task = .next targets)
    (hrun : Machines.Run p.step s tr t) :
    ∃ done current later, targets = done ++ current ++ later ∧
      Visited p s tr t done current later := by
  induction hrun with
  | nil =>
    refine ⟨[], [], targets, rfl, List.forall_mem_nil _, List.forall_mem_nil _, ?_, ?_⟩
    · rw [hs]
      exact ⟨rfl, rfl⟩
    · rw [hs]
      nofun
  | snoc hrun hstep ih =>
    obtain ⟨done, current, later, heq, hvisited⟩ := ih
    obtain ⟨done', current', later', heq', hvisited'⟩ := hvisited.step hrun hstep
    exact ⟨done', current', later', heq.trans heq', hvisited'⟩

end Visits

section Refreshes

def LokiCatalog.Reached (c : LokiCatalog) (s : CatalogState) : Prop :=
  ∃ nowNs s₀ tr, c.initializeState nowNs = some s₀ ∧ Machines.Run c.step s₀ tr s

/-- In this run thread `i` has asked every tenant for its labels. What pins a
generation later, in the run or after it, sees the answers or newer ones. -/
def RefreshSeen (c : LokiCatalog) (i : ℕ) (tr : CatalogTrace) (t : CatalogState) : Prop :=
  ∃ before during after, tr = before ++ during ++ after ∧
    (repliesTo i during).map Prod.fst = c.config.tenants.map (c.tenantCall .pragma) ∧
    ∀ later u, Machines.Run c.step t later u →
      ∀ x ∈ after ++ later, ∀ j q, x.event = .pinned j q →
        ∃ snapshot, u.deref q = some snapshot ∧
          FetchedSince c i during (after ++ later) snapshot ∧
          ∀ y ∈ after ++ later, ∀ k q' query answer,
            y.event = .returned k (some j) q' query answer → answer = c.answer snapshot query

variable {p : RefreshPragma} {s t : PragmaState} {tr : PragmaTrace} {targets : List ℕ}
  {error : Option Str}

theorem RefreshedIn.seen {c : LokiCatalog} {i : ℕ} {s t : CatalogState} {tr : CatalogTrace}
    (h : RefreshedIn c i s tr t) (hs : c.Reached s) : RefreshSeen c i tr t := by
  obtain ⟨nowNs, s₀, earlier, hs₀, hearlier⟩ := hs
  obtain ⟨before, during, after, u, v, hsplit, hbefore, hu, hduring, hv, hafter⟩ := h
  have hrun := hearlier.trans hbefore
  refine ⟨before, during, after, hsplit, (refreshed_carries hs₀ hrun hu hduring hv).1, ?_⟩
  intro later w hlater x hx j q hpinned
  have hrest := hafter.trans hlater
  obtain ⟨snapshot, hderef, hsince⟩ := pinned_fetchedSince hs₀ hrun hu hduring hv hrest hx hpinned
  have hisolated := run_isolated hs₀ ((hrun.trans hduring).trans hrest)
  refine ⟨snapshot, hderef, hsince, ?_⟩
  intro y hy k q' query answer hanswer
  exact hisolated.answer_of_pinned (List.mem_append_right _ hx) hpinned hderef
    (List.mem_append_right _ hy) hanswer

/-- The statement goes through the databases that it begins with, in their
order, and stops at the first that fails. In each one that it is done with a
refresh of its own has succeeded, whatever else went on there and in the others. -/
theorem pragma_refreshes (hbegin : p.begin = .next targets) (hs : s.task = p.begin)
    (hreached : ∀ k c, p.catalogAt k = some c → c.Reached (s.catalogs k))
    (hrun : Machines.Run p.step s tr t) (ht : t.task = .returned error) :
    ∃ done later, targets = done ++ later ∧ (error = none ↔ later = []) ∧
      TouchedOnly tr (done ++ later.take 1) ∧
      ∀ k ∈ done, ∀ c, p.catalogAt k = some c → c.config.labelsPinned = false →
        ∃ i, StartedIn k i tr ∧ RefreshSeen c i (onCatalog k tr) (t.catalogs k) := by
  rw [hbegin] at hs
  obtain ⟨done, current, later, heq, hvisited⟩ := run_visited hs hrun
  have hseen : ∀ k ∈ done, ∀ c, p.catalogAt k = some c → c.config.labelsPinned = false →
      ∃ i, StartedIn k i tr ∧ RefreshSeen c i (onCatalog k tr) (t.catalogs k) := by
    intro k hk c hc hpinned
    obtain ⟨i, hstarted, hrefreshed⟩ := hvisited.served k hk c hc hpinned
    exact ⟨i, hstarted, hrefreshed.seen (hreached k c hc)⟩
  have hstands := hvisited.stands
  rw [ht] at hstands
  refine ⟨done, current ++ later, ?_, ?_, ?_, hseen⟩
  · rw [heq, List.append_assoc]
  · cases error with
    | none =>
      obtain ⟨rfl, rfl⟩ := hstands
      exact ⟨fun _ ↦ rfl, fun _ ↦ rfl⟩
    | some message =>
      obtain ⟨k, rfl⟩ := hstands
      exact ⟨nofun, nofun⟩
  · cases error with
    | none =>
      obtain ⟨rfl, rfl⟩ := hstands
      exact hvisited.touched
    | some message =>
      obtain ⟨k, rfl⟩ := hstands
      exact hvisited.touched

end Refreshes

section Sample

def everyLabel : RefreshPragma where
  databases := [⟨"memory".toList, none⟩, ⟨"lk".toList, some appLabels⟩]
  transactions := fun _ ↦ none
  argument := none

def lokiActions : List Action :=
  List.replicate 4 (.advance 0) ++ [.advance 1, .reply 1 labelsResponse, .reply 1 labelsResponse] ++
    List.replicate 6 (.advance 1)

def everyLabelActions : List PragmaAction :=
  [.pragma, .pragma] ++ (lokiActions.take 4).map (.catalog 1) ++ [.pragma] ++
    (lokiActions.drop 4).map (.catalog 1) ++ [.pragma]

def everyLabelRun : Option (PragmaState × PragmaTrace × PragmaState) := do
  let s₀ ← appLabels.initializeState 0
  let s : PragmaState := ⟨fun _ ↦ s₀, everyLabel.begin⟩
  let (tr, t) ← Machines.exec everyLabel.step s everyLabelActions
  some (s, tr, t)

theorem pragma_refreshes_everyLabel : ∃ s tr t, Machines.Run everyLabel.step s tr t ∧
    t.task = .returned none ∧ ∃ i, StartedIn 1 i tr ∧
      RefreshSeen appLabels i (onCatalog 1 tr) (t.catalogs 1) := by
  have hsome : everyLabelRun.any (fun x ↦ x.2.2.task = .returned none) = true := by
    decide +kernel
  obtain ⟨⟨s, tr, t⟩, hrun, ht⟩ := (Option.any_eq_true _ _).mp hsome
  have ht := of_decide_eq_true ht
  unfold everyLabelRun at hrun
  simp only [Option.bind_eq_bind, Option.bind_eq_some_iff, Option.some_inj, Prod.mk.injEq] at hrun
  obtain ⟨s₀, hs₀, _, hexec, rfl, rfl, rfl⟩ := hrun
  have hrun := Machines.exec_run hexec
  have hreached : ∀ k c, everyLabel.catalogAt k = some c → c.Reached s₀ := by
    intro k c hc
    match k with
    | 0 => cases hc
    | 1 =>
      rw [← Option.some.inj hc]
      exact ⟨0, s₀, [], hs₀, .nil⟩
    | k + 2 => cases hc
  obtain ⟨done, later, htargets, herror, _, hseen⟩ :=
    pragma_refreshes (show everyLabel.begin = .next [0, 1] from rfl) rfl hreached hrun ht
  rw [herror.mp rfl, List.append_nil] at htargets
  exact ⟨_, _, _, hrun, ht, hseen 1 (htargets ▸ by decide) appLabels rfl rfl⟩

end Sample

end DuckdbLoki
