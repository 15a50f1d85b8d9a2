import DuckdbLoki.Catalog
import DuckdbLoki.Machines.Publication
import DuckdbLoki.Machines.Run

namespace DuckdbLoki

/-- What is fixed over the life of an attached catalog; `read` is
`yyjson_read`. -/
structure LokiCatalog where
  name : Str
  config : LokiCatalogConfig
  read : Str → Option Json

/-- A `shared_ptr` to a generation, by its number. -/
abbrev SnapshotPtr := Option ℕ

/-- Who refreshes the labels: a starting transaction, with the time it read,
or the `PRAGMA`. -/
inductive Caller
  | ttl (nowNs : ℤ)
  | pragma
deriving DecidableEq

inductive CatalogQuery
  | lookupSchema (name : Str) (ifNotFound : OnEntryNotFound)
  | scanSchemas
deriving DecidableEq

/-- Where a thread stands, with its local variables. -/
inductive Task
  | starting
  | checking (nowNs : ℤ)
  | locking (caller : Caller)
  | rechecking (nowNs : ℤ)
  | fetching (caller : Caller) (fetched : List (List Str))
  | building (caller : Caller) (fetched : List (List Str)) (nextVersion : ℕ)
  | publishing (caller : Caller) (snapshot : LokiCatalogSnapshot)
  | refreshed (caller : Caller) (error : Option Str)
  | storing (nowNs : ℤ)
  | releasing (caller : Caller) (error : Option Str)
  | pinning
  | pinned (snapshot : SnapshotPtr)
  | live (snapshot : SnapshotPtr)
  | looking (transaction : Option ℕ) (query : CatalogQuery) (snapshot : SnapshotPtr)
  | finished
deriving DecidableEq

/-- What a step shows; the first number is that of the thread. -/
inductive Event
  | silent
  | attempted (i : ℕ) (nowNs : ℤ)
  | replied (i : ℕ) (call : HttpCall) (names : List Str)
  | failed (i : ℕ) (message : Str)
  | unchanged (i : ℕ)
  | published (i : ℕ) (generation : ℕ)
  | stored (i : ℕ)
  | errored (i : ℕ) (message : Str)
  | pinned (i : ℕ) (snapshot : SnapshotPtr)
  | returned (i : ℕ) (transaction : Option ℕ) (snapshot : SnapshotPtr) (query : CatalogQuery)
      (answer : Except Str (List LokiSchemaEntry))

inductive Action
  | tick (nowNs : ℤ)
  | startTransaction
  | refreshLabels
  | find (transaction : Option ℕ) (query : CatalogQuery)
  | commitTransaction (i : ℕ)
  | rollbackTransaction (i : ℕ)
  | reply (i : ℕ) (response : HttpResponse)
  | advance (i : ℕ)

/-- The catalog, its threads and the clock. A generation stays in the heap when
no pointer to it is left. -/
structure CatalogState where
  heap : List LokiCatalogSnapshot
  current : SnapshotPtr
  retired : List SnapshotPtr
  refreshLock : Option ℕ
  nextCheckNs : ℤ
  clock : ℤ
  tasks : List Task

def refreshBackoffNs : ℤ := 60 * 1000 * 1000 * 1000

def Task.snapshot : Task → Option SnapshotPtr
  | .pinned snapshot => some snapshot
  | .live snapshot => some snapshot
  | .looking _ _ snapshot => some snapshot
  | _ => none

namespace CatalogState

variable (s : CatalogState)

def put (i : ℕ) (task : Task) : CatalogState := { s with tasks := s.tasks.set i task }

def spawn (task : Task) : CatalogState := { s with tasks := s.tasks ++ [task] }

def deref (snapshot : SnapshotPtr) : Option LokiCatalogSnapshot := snapshot.bind (s.heap[·]?)

def useCount (snapshot : SnapshotPtr) : ℕ :=
  match snapshot with
  | none => 0
  | some _ =>
    (if s.current = snapshot then 1 else 0) + s.retired.count snapshot +
      s.tasks.countP (fun task ↦ task.snapshot = some snapshot)

/-- The last critical section of `DoRefresh`. -/
def publish (snapshot : LokiCatalogSnapshot) : CatalogState :=
  let s := { s with
    heap := s.heap ++ [snapshot]
    retired := s.retired ++ [s.current]
    current := some s.heap.length }
  { s with
    retired := Publication.reap (fun retired p ↦ { s with retired := retired }.useCount p = 1)
      s.retired.length s.retired }

end CatalogState

namespace LokiCatalog

variable (c : LokiCatalog)

/-- The state after `Initialize`, which has read the clock. There is no result
where a name cannot be a column, or the deadline overflows. -/
def initializeState (nowNs : ℤ) : Option CatalogState := do
  let snapshot ← (buildSnapshot c.config (c.config.tenants.map LokiTenant.labelColumns) 0).toOption
  let deadline ← checked (nowNs + c.config.labelCacheTtlNs)
  some {
    heap := [snapshot]
    current := some 0
    retired := []
    refreshLock := none
    nextCheckNs := deadline
    clock := nowNs
    tasks := [] }

def pinnedError : Str :=
  "loki catalog '".toList ++ c.name ++
    ("' was attached with an explicit `labels` option, so its promoted columns are pinned and " ++
      "there is nothing to refresh; re-ATTACH without `labels` to auto-discover them").toList

def tenantCall (caller : Caller) (tenant : LokiTenant) : HttpCall :=
  let auth := tenantAuth c.config.auth tenant.tenantId
  match caller with
  | .ttl _ => labelNamesCall c.config.endpoint auth 5 5
  | .pragma => labelNamesCall c.config.endpoint auth 10 60

def answer (snapshot : LokiCatalogSnapshot) : CatalogQuery → Except Str (List LokiSchemaEntry)
  | .lookupSchema name ifNotFound =>
    (lookupSchema c.name snapshot name ifNotFound).map Option.toList
  | .scanSchemas => .ok snapshot.schemas

def pinnedSnapshot (s : CatalogState) : Option ℕ → Option SnapshotPtr
  | none => some s.current
  | some x =>
    match s.tasks[x]? with
    | some (.live none) => some s.current
    | some (.live (some g)) => some (some g)
    | _ => none

def receive (i : ℕ) (response : HttpResponse) : Task → Option (Task × Event)
  | .fetching caller fetched =>
    match c.config.tenants[fetched.length]? with
    | none => none
    | some tenant =>
      match fetchLokiLabelNames c.read response with
      | .ok names =>
        some (.fetching caller (fetched ++ [names]),
          .replied i (c.tenantCall caller tenant) names)
      | .error message => some (.refreshed caller (some message), .failed i message)
  | _ => none

/-- The comparison in `DoRefresh`, once every tenant has been fetched. -/
def compareFetched (s : CatalogState) (i : ℕ) (caller : Caller) (fetched : List (List Str)) :
    Option (Task × Event) :=
  match s.current with
  | none => some (.building caller fetched 0, .silent)
  | some g =>
    (s.heap[g]?).map (fun current ↦
      if current.labelColumns = fetched then (.refreshed caller none, .unchanged i)
      else (.building caller fetched (current.version + 1), .silent))

def think (s : CatalogState) (i : ℕ) : Task → Option (Task × Event)
  | .starting =>
    if c.config.labelsPinned ∨ c.config.labelCacheTtlNs = 0 then some (.pinning, .silent)
    else some (.checking s.clock, .silent)
  | .checking nowNs =>
    if nowNs < s.nextCheckNs then some (.pinning, .silent)
    else some (.locking (.ttl nowNs), .silent)
  -- only a thread that finds the lock taken gets here: `try_lock` gives up
  | .locking (.ttl _) => some (.pinning, .silent)
  | .rechecking nowNs =>
    if nowNs < s.nextCheckNs then some (.releasing (.ttl nowNs) none, .silent)
    else some (.fetching (.ttl nowNs) [], .attempted i nowNs)
  | .fetching caller fetched =>
    if fetched.length < c.config.tenants.length then none else compareFetched s i caller fetched
  | .building caller fetched nextVersion =>
    match buildSnapshot c.config fetched nextVersion with
    | .ok snapshot => some (.publishing caller snapshot, .silent)
    | .error message => some (.refreshed caller (some message), .failed i message)
  | .refreshed .pragma none => some (.storing s.clock, .silent)
  | .refreshed .pragma (some message) => some (.releasing .pragma (some message), .silent)
  | .pinned snapshot => some (.live snapshot, .silent)
  | _ => none

/-- How long a starting transaction that has tried a refresh puts off the next. -/
def delay (error : Option Str) : ℤ :=
  if error.isNone then c.config.labelCacheTtlNs
  else max c.config.labelCacheTtlNs refreshBackoffNs

def acquire (s : CatalogState) (i : ℕ) (caller : Caller) : CatalogState :=
  { s with refreshLock := some i }.put i
    (match caller with
      | .ttl nowNs => .rechecking nowNs
      | .pragma => .fetching .pragma [])

def release (s : CatalogState) (i : ℕ) (caller : Caller) (error : Option Str) :
    CatalogState × Event :=
  match caller, error with
  | .ttl _, _ => ({ s with refreshLock := none }.put i .pinning, .silent)
  | .pragma, none => ({ s with refreshLock := none }.put i .finished, .silent)
  | .pragma, some message =>
    ({ s with refreshLock := none }.put i .finished, .errored i message)

def advance (s : CatalogState) (i : ℕ) (task : Task) : Option (CatalogState × Event) :=
  match task with
  | .locking caller =>
    match s.refreshLock with
    | none => some (acquire s i caller, .silent)
    | some _ => (c.think s i task).map (fun (new, event) ↦ (s.put i new, event))
  | .publishing caller snapshot =>
    some ((s.publish snapshot).put i (.refreshed caller none), .published i s.heap.length)
  | .refreshed (.ttl nowNs) error =>
    (checked (nowNs + c.delay error)).map (fun deadline ↦
      ({ s with nextCheckNs := deadline }.put i (.releasing (.ttl nowNs) none), .silent))
  | .storing nowNs =>
    (checked (nowNs + c.config.labelCacheTtlNs)).map (fun deadline ↦
      ({ s with nextCheckNs := deadline }.put i (.releasing .pragma none), .stored i))
  | .releasing caller error => some (release s i caller error)
  | .pinning => some (s.put i (.pinned s.current), .pinned i s.current)
  | .looking transaction query snapshot =>
    (s.deref snapshot).map (fun generation ↦
      (s.put i .finished, .returned i transaction snapshot query (c.answer generation query)))
  | task => (c.think s i task).map (fun (new, event) ↦ (s.put i new, event))

/-- `CommitTransaction` and `RollbackTransaction`. -/
def close (s : CatalogState) (i : ℕ) : Option (CatalogState × Event) :=
  match s.tasks[i]? with
  | some (.live _) => some (s.put i .finished, .silent)
  | _ => none

def step (s : CatalogState) : Action → Option (CatalogState × Event)
  | .tick nowNs => some ({ s with clock := nowNs }, .silent)
  | .startTransaction => some (s.spawn .starting, .silent)
  | .refreshLabels =>
    if c.config.labelsPinned then some (s.spawn .finished, .errored s.tasks.length c.pinnedError)
    else some (s.spawn (.locking .pragma), .silent)
  | .find transaction query =>
    (pinnedSnapshot s transaction).map (fun snapshot ↦
      (s.spawn (.looking transaction query snapshot), .silent))
  | .commitTransaction i => close s i
  | .rollbackTransaction i => close s i
  | .reply i response =>
    (s.tasks[i]?).bind (fun task ↦
      (c.receive i response task).map (fun (new, event) ↦ (s.put i new, event)))
  | .advance i => (s.tasks[i]?).bind (c.advance s i)

end LokiCatalog

end DuckdbLoki
