import DuckdbLoki.Attach
import DuckdbLoki.CatalogGenerations

namespace DuckdbLoki

open LokiCatalog

section Headers

def scopeOrgIds (headers : List (Str × Str)) : List Str :=
  (headers.filter (fun header ↦ ciEquals header.1 "X-Scope-OrgID".toList)).map Prod.snd

/-- The values of a request for a tenant, where an empty one stands for none.
The headers that the user has set are sent as they are. -/
def tenantValues (auth : AuthConfig) (tenantId : Str) : List Str :=
  (if tenantId ≠ [] then [tenantId] else []) ++ scopeOrgIds auth.extraHeaders

/-- Every request of the tables of a schema has these values. -/
structure LokiSchemaEntry.Sends (schema : LokiSchemaEntry) (values : List Str) : Prop where
  logs : ∀ (db : Database) (get : LogicalGet) (filters : List Expression) (nowNs : ℤ)
    (bind : ScanBindData) (columnIds : List ℕ) (scan : ScanGlobalState),
    schema.logsTable.getScanFunction nowNs = some bind →
    scanInitGlobal (pushdownComplexFilter db get bind filters).1 columnIds = .ok scan →
    scopeOrgIds scan.headers = values
  labels : scopeOrgIds (discoveryInitGlobal schema.labelsTable.getScanFunction).headers = values
  series : ∀ (db : Database) (get : LogicalGet) (filters : List Expression) (nowNs : ℤ)
    (bind : ScanBindData) (columnIds : List ℕ) (scan : SeriesScanGlobalState),
    schema.seriesTable.getScanFunction nowNs = some bind →
    seriesScanInitGlobal (pushdownComplexFilter db get bind filters).1 columnIds = .ok scan →
    scopeOrgIds scan.headers = values

variable {auth : AuthConfig} {a b : Str}

theorem scopeOrgIds_append (xs ys : List (Str × Str)) :
    scopeOrgIds (xs ++ ys) = scopeOrgIds xs ++ scopeOrgIds ys := by
  rw [scopeOrgIds, List.filter_append, List.map_append]
  rfl

theorem scopeOrgIds_authorization (value : Str) :
    scopeOrgIds [("Authorization".toList, value)] = [] := by
  have hname : ¬ ciEquals "Authorization".toList "X-Scope-OrgID".toList = true := by decide
  exact congrArg (List.map Prod.snd) (List.filter_cons_of_neg hname)

theorem scopeOrgIds_tenant (tenantId : Str) :
    scopeOrgIds [("X-Scope-OrgID".toList, tenantId)] = [tenantId] := by
  have hname : ciEquals "X-Scope-OrgID".toList "X-Scope-OrgID".toList = true := by decide
  exact congrArg (List.map Prod.snd) (List.filter_cons_of_pos hname)

theorem scopeOrgIds_buildAuthHeaders (auth : AuthConfig) :
    scopeOrgIds (buildAuthHeaders auth) = tenantValues auth auth.tenant := by
  rw [buildAuthHeaders, scopeOrgIds_append, scopeOrgIds_append, tenantValues]
  apply congrArg (· ++ scopeOrgIds auth.extraHeaders)
  have hrest : ∀ headers, scopeOrgIds headers = [] →
      scopeOrgIds (headers ++ if auth.tenant ≠ [] then [("X-Scope-OrgID".toList, auth.tenant)]
        else []) = if auth.tenant ≠ [] then [auth.tenant] else [] := by
    intro headers hheaders
    rw [scopeOrgIds_append, hheaders, List.nil_append]
    split_ifs
    · exact scopeOrgIds_tenant auth.tenant
    · rfl
  rw [← scopeOrgIds_append]
  apply hrest
  split_ifs
  · exact scopeOrgIds_authorization _
  · exact scopeOrgIds_authorization _
  · rfl

theorem tenantValues_inj : tenantValues auth a = tenantValues auth b ↔ a = b := by
  refine ⟨?_, congrArg _⟩
  intro h
  have hvalues := List.append_cancel_right h
  split_ifs at hvalues with ha hb hb
  · exact List.cons.inj hvalues |>.1
  · rw [not_not.mp ha, not_not.mp hb]

theorem scopeOrgIds_tenantAuth (auth : AuthConfig) (tenantId : Str) :
    scopeOrgIds (buildAuthHeaders (tenantAuth auth tenantId)) =
      tenantValues auth (if tenantId ≠ [] then tenantId else auth.tenant) := by
  rw [scopeOrgIds_buildAuthHeaders, tenantAuth]
  split_ifs <;> rfl

theorem pushdownComplexFilter_auth (db : Database) (get : LogicalGet) (bind : ScanBindData)
    (filters : List Expression) : (pushdownComplexFilter db get bind filters).1.auth = bind.auth := by
  have honto : PushedOnto bind (pushdownComplexFilter db get bind filters).1 :=
    pushedOnto_foldl db get filters (bind, [])
  rw [honto.frame]

theorem scanInitGlobal_scopeOrgIds {bind : ScanBindData} {columnIds : List ℕ}
    {scan : ScanGlobalState} (h : scanInitGlobal bind columnIds = .ok scan) :
    scopeOrgIds scan.headers = scopeOrgIds (buildAuthHeaders bind.auth) := by
  rw [scanInitGlobal] at h
  split_ifs at h
  rw [← Except.ok.inj h, scopeOrgIds_append]
  exact List.append_nil _

theorem seriesScanInitGlobal_scopeOrgIds {bind : ScanBindData} {columnIds : List ℕ}
    {scan : SeriesScanGlobalState} (h : seriesScanInitGlobal bind columnIds = .ok scan) :
    scopeOrgIds scan.headers = scopeOrgIds (buildAuthHeaders bind.auth) := by
  unfold seriesScanInitGlobal at h
  dsimp only at h
  split_ifs at h
  rw [← Except.ok.inj h]

theorem sends_schemaOf_iff (config : LokiCatalogConfig) (tenant : LokiTenant) (values : List Str) :
    (schemaOf config tenant).Sends values ↔
      scopeOrgIds (buildAuthHeaders (tenantAuth config.auth tenant.tenantId)) = values := by
  refine ⟨fun h ↦ h.labels, ?_⟩
  intro h
  refine ⟨?_, h, ?_⟩
  · intro db get filters nowNs bind columnIds scan hbind hscan
    obtain ⟨_, _, hbind⟩ := Option.map_eq_some_iff.mp hbind
    rw [scanInitGlobal_scopeOrgIds hscan, pushdownComplexFilter_auth, ← hbind]
    exact h
  · intro db get filters nowNs bind columnIds scan hbind hscan
    obtain ⟨_, _, hbind⟩ := Option.map_eq_some_iff.mp hbind
    rw [seriesScanInitGlobal_scopeOrgIds hscan, pushdownComplexFilter_auth, ← hbind]
    exact h

end Headers

section Lookup

def NamedByTenant (config : LokiCatalogConfig) : Prop :=
  ∀ tenant ∈ config.tenants, tenant.tenantId = tenant.schemaName

variable {config : LokiCatalogConfig} {name first : Str}

/-- A lookup ends at the first schema whose name is the same but for case. -/
theorem lookupSchema_snapshotOf (hnamed : NamedByTenant config)
    (hfirst : (config.tenants.map LokiTenant.schemaName).find? (fun s ↦ ciEquals s name) = some first)
    (catalogName : Str) (labels : List (List Str)) (version : ℕ) (ifNotFound : OnEntryNotFound) :
    ∃ tenant, tenant.tenantId = first ∧
      lookupSchema catalogName (snapshotOf config labels version) name ifNotFound =
        .ok (some (schemaOf config tenant)) := by
  have hnames : config.tenants.map LokiTenant.schemaName =
      (config.tenants.mapIdx (fun i tenant ↦ relabel labels tenant i)).map
        LokiTenant.schemaName := by
    apply List.ext_getElem?
    intro i
    rw [List.getElem?_map, List.getElem?_map, List.getElem?_mapIdx, Option.map_map]
    rfl
  rw [hnames, List.find?_map] at hfirst
  obtain ⟨tenant, hfind, hname⟩ := Option.map_eq_some_iff.mp hfirst
  refine ⟨tenant, ?_, ?_⟩
  · obtain ⟨i, hi, heq⟩ := List.mem_mapIdx.mp (List.mem_of_find?_eq_some hfind)
    rw [← hname, ← heq]
    exact hnamed config.tenants[i] (List.getElem_mem hi)
  · have hschema : (snapshotOf config labels version).schemas.find?
        (fun schema ↦ ciEquals schema.name name) = some (schemaOf config tenant) := by
      rw [snapshotOf, List.find?_map]
      exact congrArg (Option.map (schemaOf config)) hfind
    unfold lookupSchema
    rw [hschema]

variable {read : Str → Option Json} {server : ℕ → HttpCall → HttpResponse} {m : SecretManager}
  {store : List Secret} {path : Str} {options : AttachOptions}

theorem attachTenants_of_attach
    (h : (lokiAttach read server m store path options).run = some (.ok config)) :
    ∃ explicitLabels, attachTenants read server config.endpoint config.auth explicitLabels
      (parseStringListOption options.tenants) = .ok config.tenants := by
  obtain ⟨⟨endpoint, auth⟩, _, h⟩ := bind_eq_ok h
  obtain ⟨_, _, h⟩ := bind_eq_ok h
  obtain ⟨ttlNs, _, h⟩ := bind_eq_ok h
  obtain ⟨_, _, h⟩ := bind_eq_ok h
  obtain ⟨seriesMaxRows, _, h⟩ := bind_eq_ok h
  obtain ⟨tenants, htenants, h⟩ := bind_eq_ok h
  rw [← Except.ok.inj (Option.some.inj h)]
  exact ⟨_, Option.some.inj htenants⟩

theorem attachTenant_names {endpoint schemaName : Str} {auth : AuthConfig}
    {explicitLabels : Option (List Str)} {tenantId : Str × ℕ} {tenant : LokiTenant}
    (h : attachTenant read server endpoint auth explicitLabels schemaName tenantId = .ok tenant) :
    tenant.schemaName = schemaName ∧ tenant.tenantId = tenantId.1 := by
  unfold attachTenant at h
  cases hlabels : resolveLabels read server endpoint auth explicitLabels tenantId.2 tenantId.1 with
  | error message =>
    rw [hlabels] at h
    cases h
  | ok labels =>
    rw [hlabels] at h
    rw [← Except.ok.inj h]
    exact ⟨rfl, rfl⟩

theorem attachTenants_names {endpoint : Str} {auth : AuthConfig}
    {explicitLabels : Option (List Str)} {tenantIds : List Str} {tenants : List LokiTenant}
    (h : attachTenants read server endpoint auth explicitLabels tenantIds = .ok tenants)
    (hne : tenantIds ≠ []) :
    tenants.map LokiTenant.schemaName = tenantIds ∧ tenants.map LokiTenant.tenantId = tenantIds := by
  rw [attachTenants, if_neg hne] at h
  have hfst := List.zipIdx_map_fst 0 tenantIds
  exact ⟨(map_eq_of_mapM (fun _ _ h ↦ (attachTenant_names h).1) h).trans hfst,
    (map_eq_of_mapM (fun _ _ h ↦ (attachTenant_names h).2) h).trans hfst⟩

theorem attach_named
    (h : (lokiAttach read server m store path options).run = some (.ok config))
    (hne : parseStringListOption options.tenants ≠ []) :
    config.tenants.map LokiTenant.schemaName = parseStringListOption options.tenants ∧
      NamedByTenant config := by
  obtain ⟨_, htenants⟩ := attachTenants_of_attach h
  obtain ⟨hschemas, hids⟩ := attachTenants_names htenants hne
  refine ⟨hschemas, ?_⟩
  intro tenant htenant
  exact List.map_inj_left.mp (hids.trans hschemas.symm) tenant htenant

end Lookup

section Isolation

variable {read : Str → Option Json} {server : ℕ → HttpCall → HttpResponse} {m : SecretManager}
  {store : List Secret} {path : Str} {options : AttachOptions} {c : LokiCatalog}
  {s₀ s : CatalogState} {tr : CatalogTrace} {nowNs : ℤ} {snapshot : LokiCatalogSnapshot}
  {tenantId first : Str}

/-- What a tenant's schema sends when the lookup ends at the first of its
namesakes. -/
theorem sent_iff (hfirst : ciEquals first tenantId = true) (auth : AuthConfig) :
    scopeOrgIds (buildAuthHeaders (tenantAuth auth first)) = tenantValues auth tenantId ↔
      first = tenantId ∧ (tenantId = [] → auth.tenant = []) := by
  rw [scopeOrgIds_tenantAuth, tenantValues_inj]
  split_ifs with hne
  · constructor
    · intro heq
      refine ⟨heq, ?_⟩
      intro hempty
      exact absurd (heq.trans hempty) hne
    · exact fun h ↦ h.1
  · rw [not_not] at hne
    have hempty : tenantId = [] := by
      rw [hne, ciEquals_iff] at hfirst
      exact List.map_eq_nil_iff.mp hfirst.symm
    rw [hne, hempty]
    exact ⟨fun h ↦ ⟨rfl, fun _ ↦ h⟩, fun h ↦ h.2 rfl⟩

/-- In every state of an attached catalog, and for each of its generations, the
schema that is found under a tenant's name sends that tenant exactly when the
tenant is the first in the list among those with its name but for case; the
empty tenant sends none exactly when the connection has none. -/
theorem tenantSchema_iff
    (hattach : (lokiAttach read server m store path options).run = some (.ok c.config))
    (htenant : tenantId ∈ parseStringListOption options.tenants)
    (h₀ : c.initializeState nowNs = some s₀) (hrun : Machines.Run c.step s₀ tr s)
    (hsnapshot : snapshot ∈ s.heap) (ifNotFound : OnEntryNotFound) :
    (∃ schema, lookupSchema c.name snapshot tenantId ifNotFound = .ok (some schema) ∧
      schema.Sends (tenantValues c.config.auth tenantId)) ↔
      (parseStringListOption options.tenants).find? (fun t ↦ ciEquals t tenantId) =
        some tenantId ∧ (tenantId = [] → c.config.auth.tenant = []) := by
  obtain ⟨hschemas, hnamed⟩ := attach_named hattach (List.ne_nil_of_mem htenant)
  obtain ⟨labels, version, heq⟩ := run_snapshotOf h₀ hrun snapshot hsnapshot
  have hself : ciEquals tenantId tenantId = true := decide_eq_true rfl
  have hfound : ((parseStringListOption options.tenants).find?
      (fun t ↦ ciEquals t tenantId)).isSome = true :=
    List.find?_isSome.mpr ⟨tenantId, htenant, hself⟩
  obtain ⟨first, hfirst⟩ := Option.isSome_iff_exists.mp hfound
  have hfirst' := hfirst
  rw [← hschemas] at hfirst'
  obtain ⟨tenant, hid, hlookup⟩ :=
    lookupSchema_snapshotOf hnamed hfirst' c.name labels version ifNotFound
  have hcase : ciEquals first tenantId = true :=
    List.find?_some (p := fun t ↦ ciEquals t tenantId) hfirst
  rw [heq, hlookup, hfirst, Option.some_inj, ← sent_iff hcase c.config.auth, ← hid,
    ← sends_schemaOf_iff]
  constructor
  · intro ⟨schema, hschema, hsends⟩
    rw [Option.some.inj (Except.ok.inj hschema)]
    exact hsends
  · intro hsends
    exact ⟨_, rfl, hsends⟩

def tenantsOption (tenants : List String) : AttachOptions where
  connection := { endpoint := some "http://loki:3100".toList }
  tenants := some ⟨.list (tenants.map (fun t ↦ some t.toList)), (toString tenants).toList⟩

def attachedTenants (tenants : List String) : LokiCatalog where
  name := "logs".toList
  config := {
    endpoint := "http://loki:3100".toList
    auth := ⟨[], [], [], [], []⟩
    tenants := tenants.map (fun t ↦ ⟨t.toList, t.toList, ["app".toList]⟩)
    labelsPinned := false
    labelCacheTtlNs := 0
    seriesMaxRows := 100000 }
  read := appLabels.read

def twoLabelsBody : Str := "\x7b\"status\":\"success\",\"data\":[\"app\",\"job\"]\x7d".toList

def twoLabelsResponse : HttpResponse := ⟨200, twoLabelsBody, []⟩

/-- Two tenants whose server has a label more after the attach. -/
def relabelledTenants : LokiCatalog where
  name := "logs".toList
  config := (attachedTenants ["acme", "umbrella"]).config
  read body := if body = twoLabelsBody then
      some (.object [("status".toList, .string "success".toList),
        ("data".toList, .array [.string "app".toList, .string "job".toList])])
    else appLabels.read body

def relabelActions : List Action :=
  List.flatten [[.refreshLabels, .advance 0, .reply 0 twoLabelsResponse,
    .reply 0 twoLabelsResponse], List.replicate 6 (.advance 0)]

def relabelledRun : Option (CatalogState × CatalogTrace × CatalogState) := do
  let s₀ ← relabelledTenants.initializeState 0
  let run ← Machines.exec relabelledTenants.step s₀ relabelActions
  some (s₀, run)

/-- Tenants that differ beyond case are apart, also after a refresh. -/
theorem tenantSchema_apart : ∃ s₀ tr s snapshot schema,
    relabelledTenants.initializeState 0 = some s₀ ∧
      Machines.Run relabelledTenants.step s₀ tr s ∧ s.current = some 1 ∧
      s.deref (some 1) = some snapshot ∧
      lookupSchema "logs".toList snapshot "umbrella".toList .returnNull = .ok (some schema) ∧
      schema.Sends ["umbrella".toList] := by
  have hattach : (lokiAttach relabelledTenants.read (fun _ _ ↦ labelsResponse) .reference [] []
      (tenantsOption ["acme", "umbrella"])).run = some (.ok relabelledTenants.config) := by rfl
  have hsome : relabelledRun.any (fun x ↦
      x.2.2.current = some 1 ∧ (x.2.2.deref (some 1)).isSome = true) = true := by decide +kernel
  obtain ⟨⟨s₀, tr, s⟩, hrun, hfacts⟩ := (Option.any_eq_true _ _).mp hsome
  obtain ⟨hcurrent, hderef⟩ := of_decide_eq_true hfacts
  obtain ⟨snapshot, hderef⟩ := Option.isSome_iff_exists.mp hderef
  unfold relabelledRun at hrun
  simp only [Option.bind_eq_bind, Option.bind_eq_some_iff, Option.some_inj, Prod.mk.injEq] at hrun
  obtain ⟨_, hs₀, _, hexec, rfl, rfl⟩ := hrun
  have hsnapshot : snapshot ∈ s.heap := List.mem_of_getElem? hderef
  have htenant : "umbrella".toList ∈
      parseStringListOption (tenantsOption ["acme", "umbrella"]).tenants := by decide
  obtain ⟨schema, hlookup, hsends⟩ := (tenantSchema_iff hattach htenant hs₀
    (Machines.exec_run hexec) hsnapshot .returnNull).mpr ⟨by decide, fun h ↦ by cases h⟩
  exact ⟨_, tr, s, snapshot, schema, hs₀, Machines.exec_run hexec, hcurrent, hderef, hlookup,
    hsends⟩

/-- Tenants that differ in case are mixed up. -/
theorem tenantSchema_mixed : ∃ s₀ snapshot schema,
    (lokiAttach appLabels.read (fun _ _ ↦ labelsResponse) .reference [] []
      (tenantsOption ["Acme", "acme"])).run =
        some (.ok (attachedTenants ["Acme", "acme"]).config) ∧
      (attachedTenants ["Acme", "acme"]).initializeState 0 = some s₀ ∧ snapshot ∈ s₀.heap ∧
      lookupSchema "logs".toList snapshot "acme".toList .throwException = .ok (some schema) ∧
      scopeOrgIds (discoveryInitGlobal schema.labelsTable.getScanFunction).headers =
        ["Acme".toList] ∧ ¬ schema.Sends ["acme".toList] := by
  have hsome : ((attachedTenants ["Acme", "acme"]).initializeState 0).isSome = true := by
    decide +kernel
  obtain ⟨s₀, hs₀⟩ := Option.isSome_iff_exists.mp hsome
  obtain ⟨snapshot, hbuild, heq⟩ := initializeState_eq hs₀
  rw [eq_snapshotOf hbuild] at heq
  refine ⟨s₀, snapshotOf (attachedTenants ["Acme", "acme"]).config [["app".toList], ["app".toList]] 0,
    schemaOf (attachedTenants ["Acme", "acme"]).config
      ⟨"Acme".toList, "Acme".toList, ["app".toList]⟩, by rfl, hs₀, ?_, by rfl, by rfl, ?_⟩
  · rw [heq]
    exact List.mem_singleton_self _
  · intro hsends
    have hlabels := hsends.labels
    exact absurd hlabels (by decide)

end Isolation

end DuckdbLoki
