import DuckdbLoki.LabelColumns
import DuckdbLoki.MandatorySelector

namespace DuckdbLoki

structure LokiTenant where
  schemaName : Str
  tenantId : Str
  labelColumns : List Str
deriving DecidableEq

structure LokiCatalogConfig where
  endpoint : Str
  auth : AuthConfig
  tenants : List LokiTenant
  labelsPinned : Bool
  labelCacheTtlNs : ℤ
  seriesMaxRows : ℕ
deriving DecidableEq

section Tables

structure LokiLogsTable where
  columns : List ColumnDefinition
  endpoint : Str
  auth : AuthConfig
  labelColumns : List Str
deriving DecidableEq

structure LokiLabelsTable where
  columns : List ColumnDefinition
  endpoint : Str
  auth : AuthConfig
deriving DecidableEq

structure LokiSeriesTable where
  columns : List ColumnDefinition
  endpoint : Str
  auth : AuthConfig
  labelColumns : List Str
  maxRows : ℕ
deriving DecidableEq

structure LokiDiscoveryBindData where
  endpoint : Str
  auth : AuthConfig
  request : QueryRangeRequest
deriving DecidableEq

structure LokiDiscoveryGlobalState where
  endpoint : Str
  headers : List (Str × Str)
  request : QueryRangeRequest
deriving DecidableEq

def LokiLogsTable.getScanFunction (t : LokiLogsTable) (nowNs : ℤ) : Option ScanBindData :=
  logsTableBind t.endpoint t.auth t.labelColumns nowNs

def LokiLabelsTable.getScanFunction (t : LokiLabelsTable) : LokiDiscoveryBindData :=
  ⟨t.endpoint, t.auth, buildLabelsRequest (-1) (-1)⟩

def LokiSeriesTable.getScanFunction (t : LokiSeriesTable) (nowNs : ℤ) : Option ScanBindData :=
  seriesTableBind t.endpoint t.auth t.labelColumns nowNs

def discoveryInitGlobal (bind : LokiDiscoveryBindData) : LokiDiscoveryGlobalState :=
  ⟨bind.endpoint, buildAuthHeaders bind.auth, bind.request⟩

end Tables

section Schemas

structure LokiSchemaEntry where
  name : Str
  logsTable : LokiLogsTable
  labelsTable : LokiLabelsTable
  seriesTable : LokiSeriesTable
deriving DecidableEq

def tenantAuth (auth : AuthConfig) (tenantId : Str) : AuthConfig :=
  if tenantId ≠ [] then { auth with tenant := tenantId } else auth

def LokiSchemaEntry.new (config : LokiCatalogConfig) (tenant : LokiTenant) :
    Except Str LokiSchemaEntry := do
  let auth := tenantAuth config.auth tenant.tenantId
  let logs ← buildLokiLogsColumns tenant.labelColumns []
  let labels ← addColumn [] (labelColumn "label".toList)
  let series ← buildLokiSeriesColumns tenant.labelColumns []
  .ok {
    name := tenant.schemaName
    logsTable := ⟨logs, config.endpoint, auth, tenant.labelColumns⟩
    labelsTable := ⟨labels, config.endpoint, auth⟩
    seriesTable := ⟨series, config.endpoint, auth, tenant.labelColumns, config.seriesMaxRows⟩ }

structure LokiCatalogSnapshot where
  version : ℕ
  labelColumns : List (List Str)
  schemas : List LokiSchemaEntry
deriving DecidableEq

def relabel (labels : List (List Str)) (tenant : LokiTenant) (i : ℕ) : LokiTenant :=
  { tenant with labelColumns := (labels[i]?).getD tenant.labelColumns }

def buildSnapshot (config : LokiCatalogConfig) (labels : List (List Str)) (version : ℕ) :
    Except Str LokiCatalogSnapshot :=
  ((config.tenants.mapIdx (fun i tenant ↦ relabel labels tenant i)).mapM
    (LokiSchemaEntry.new config)).map (fun schemas ↦ ⟨version, labels, schemas⟩)

inductive OnEntryNotFound
  | throwException
  | returnNull
deriving DecidableEq

def lookupSchema (catalogName : Str) (snapshot : LokiCatalogSnapshot) (name : Str)
    (ifNotFound : OnEntryNotFound) : Except Str (Option LokiSchemaEntry) :=
  match snapshot.schemas.find? (fun schema ↦ ciEquals schema.name name) with
  | some schema => .ok (some schema)
  | none =>
    match ifNotFound with
    | .returnNull => .ok none
    | .throwException =>
      .error ("Schema '".toList ++ name ++ "' not found in loki catalog '".toList ++
        catalogName ++ "'".toList)

end Schemas

section Build

def schemaOf (config : LokiCatalogConfig) (tenant : LokiTenant) : LokiSchemaEntry :=
  let auth := tenantAuth config.auth tenant.tenantId
  { name := tenant.schemaName
    logsTable := ⟨logsColumns tenant.labelColumns, config.endpoint, auth, tenant.labelColumns⟩
    labelsTable := ⟨[labelColumn "label".toList], config.endpoint, auth⟩
    seriesTable := ⟨seriesColumns tenant.labelColumns, config.endpoint, auth, tenant.labelColumns,
      config.seriesMaxRows⟩ }

def snapshotOf (config : LokiCatalogConfig) (labels : List (List Str)) (version : ℕ) :
    LokiCatalogSnapshot :=
  ⟨version, labels,
    (config.tenants.mapIdx (fun i tenant ↦ relabel labels tenant i)).map (schemaOf config)⟩

variable {config : LokiCatalogConfig} {tenant : LokiTenant} {entry : LokiSchemaEntry}

theorem LokiSchemaEntry.new_eq (h : Promotable tenant.labelColumns) :
    LokiSchemaEntry.new config tenant = .ok (schemaOf config tenant) := by
  have hlabel : addColumn [] (labelColumn "label".toList) = .ok [labelColumn "label".toList] :=
    if_neg nofun
  rw [LokiSchemaEntry.new, h.buildLokiLogsColumns, hlabel, h.buildLokiSeriesColumns]
  rfl

theorem LokiSchemaEntry.eq_of_new (h : LokiSchemaEntry.new config tenant = .ok entry) :
    entry = schemaOf config tenant := by
  have hlabel : addColumn [] (labelColumn "label".toList) = .ok [labelColumn "label".toList] :=
    if_neg nofun
  rw [LokiSchemaEntry.new, hlabel] at h
  cases hlogs : buildLokiLogsColumns tenant.labelColumns [] with
  | error message =>
    rw [hlogs] at h
    cases h
  | ok logs =>
    cases hseries : buildLokiSeriesColumns tenant.labelColumns [] with
    | error message =>
      rw [hlogs, hseries] at h
      cases h
    | ok series =>
      rw [hlogs, hseries, eq_of_foldlM_addColumn hlogs, eq_of_foldlM_addColumn hseries] at h
      exact (Except.ok.inj h).symm

theorem mapM_eq_map {α β ε : Type} {f : α → Except ε β} {g : α → β} {l : List α}
    (h : ∀ a ∈ l, f a = .ok (g a)) : l.mapM f = .ok (l.map g) := by
  induction l with
  | nil => rfl
  | cons a l ih =>
    obtain ⟨ha, hl⟩ := List.forall_mem_cons.mp h
    rw [List.mapM_cons, ha, ih hl]
    rfl

theorem map_eq_of_mapM {α β γ ε : Type} {f : α → Except ε β} {g : β → γ} {k : α → γ} {l : List α}
    {bs : List β} (hg : ∀ a b, f a = .ok b → g b = k a) (h : l.mapM f = .ok bs) :
    bs.map g = l.map k := by
  induction l generalizing bs with
  | nil =>
    rw [← Except.ok.inj h]
    rfl
  | cons a l ih =>
    rw [List.mapM_cons] at h
    cases hfirst : f a with
    | error message =>
      rw [hfirst] at h
      cases h
    | ok b =>
      cases hrest : l.mapM f with
      | error message =>
        rw [hfirst, hrest] at h
        cases h
      | ok rest =>
        rw [hfirst, hrest] at h
        rw [← Except.ok.inj h, List.map_cons, List.map_cons, ih hrest, hg a b hfirst]

theorem exists_of_mapM {α β ε : Type} {f : α → Except ε β} {l : List α} {bs : List β} {b : β}
    (h : l.mapM f = .ok bs) (hb : b ∈ bs) : ∃ a ∈ l, f a = .ok b := by
  induction l generalizing bs with
  | nil =>
    rw [← Except.ok.inj h] at hb
    cases hb
  | cons a l ih =>
    rw [List.mapM_cons] at h
    cases hfirst : f a with
    | error message =>
      rw [hfirst] at h
      cases h
    | ok first =>
      cases hrest : l.mapM f with
      | error message =>
        rw [hfirst, hrest] at h
        cases h
      | ok rest =>
        rw [hfirst, hrest] at h
        rw [← Except.ok.inj h] at hb
        rcases List.mem_cons.mp hb with heq | hb
        · exact ⟨a, List.mem_cons_self, heq ▸ hfirst⟩
        · obtain ⟨a', ha', hok⟩ := ih hrest hb
          exact ⟨a', List.mem_cons_of_mem _ ha', hok⟩

theorem eq_snapshotOf {labels : List (List Str)} {version : ℕ} {snapshot : LokiCatalogSnapshot}
    (h : buildSnapshot config labels version = .ok snapshot) :
    snapshot = snapshotOf config labels version := by
  unfold buildSnapshot at h
  cases hschemas : (config.tenants.mapIdx (fun i tenant ↦ relabel labels tenant i)).mapM
      (LokiSchemaEntry.new config) with
  | error message =>
    rw [hschemas] at h
    cases h
  | ok schemas =>
    have heq := map_eq_of_mapM (g := id) (fun _ _ ↦ LokiSchemaEntry.eq_of_new) hschemas
    rw [List.map_id] at heq
    rw [hschemas, heq] at h
    exact (Except.ok.inj h).symm

structure Discovered (config : LokiCatalogConfig) (labels : List (List Str)) : Prop where
  length_eq : labels.length = config.tenants.length
  promotable : ∀ names ∈ labels, Promotable names

/-- Labels that were discovered always make a generation. -/
theorem Discovered.buildSnapshot {labels : List (List Str)} (h : Discovered config labels)
    (version : ℕ) :
    buildSnapshot config labels version = .ok (snapshotOf config labels version) := by
  have hnew : ∀ tenant ∈ config.tenants.mapIdx (fun i tenant ↦ relabel labels tenant i),
      LokiSchemaEntry.new config tenant = .ok (schemaOf config tenant) := by
    intro tenant htenant
    apply LokiSchemaEntry.new_eq
    obtain ⟨i, hi, heq⟩ := List.mem_mapIdx.mp htenant
    have hlt : i < labels.length := h.length_eq ▸ hi
    rw [← heq, relabel, List.getElem?_eq_getElem hlt]
    exact h.promotable _ (List.getElem_mem hlt)
  rw [DuckdbLoki.buildSnapshot, mapM_eq_map hnew]
  rfl

structure LokiCatalogSnapshot.Carries (snapshot : LokiCatalogSnapshot)
    (config : LokiCatalogConfig) (labels : List (List Str)) : Prop where
  labelColumns : snapshot.labelColumns = labels
  length_eq : labels.length = config.tenants.length
  schemas : List.Forall₂ (fun (schema : LokiSchemaEntry) (x : LokiTenant × List Str) ↦
    schema.name = x.1.schemaName ∧ schema.logsTable.columns = logsColumns x.2 ∧
      schema.logsTable.labelColumns = x.2 ∧ schema.seriesTable.columns = seriesColumns x.2 ∧
      schema.seriesTable.labelColumns = x.2) snapshot.schemas (config.tenants.zip labels)

theorem snapshotOf_carries {labels : List (List Str)}
    (h : labels.length = config.tenants.length) (version : ℕ) :
    (snapshotOf config labels version).Carries config labels := by
  refine ⟨rfl, h, ?_⟩
  rw [List.forall₂_iff_get]
  refine ⟨?_, ?_⟩
  · simp [snapshotOf, h]
  · intro i hi hlt
    have hlt' : i < labels.length := by
      rw [List.length_zip] at hlt
      exact hlt.trans_le (Nat.min_le_right _ _)
    have hcolumns : ((snapshotOf config labels version).schemas.get ⟨i, hi⟩) =
        schemaOf config (relabel labels config.tenants[i] i) := by
      simp [snapshotOf]
    have hnames : (relabel labels config.tenants[i] i).labelColumns = labels[i] := by
      simp [relabel, hlt']
    have hpair : (config.tenants.zip labels).get ⟨i, hlt⟩ = (config.tenants[i], labels[i]) := by
      simp
    rw [hcolumns, hpair]
    dsimp only
    rw [← hnames]
    exact ⟨rfl, rfl, rfl, rfl, rfl⟩

end Build

end DuckdbLoki
