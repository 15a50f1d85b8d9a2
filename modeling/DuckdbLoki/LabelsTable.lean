import DuckdbLoki.DiscoveryServer
import DuckdbLoki.TenantQueries

namespace DuckdbLoki

section Entries

/-- A schema has entries of the type of tables only. -/
inductive CatalogType
  | tableEntry
  | other
deriving DecidableEq

inductive LokiTable
  | logs (table : LokiLogsTable)
  | labels (table : LokiLabelsTable)
  | series (table : LokiSeriesTable)
deriving DecidableEq

def LokiTable.name : LokiTable → Str
  | .logs _ => "logs".toList
  | .labels _ => "labels".toList
  | .series _ => "series".toList

namespace LokiSchemaEntry

variable (schema : LokiSchemaEntry)

def scan : CatalogType → List LokiTable
  | .tableEntry => [.logs schema.logsTable, .labels schema.labelsTable, .series schema.seriesTable]
  | .other => []

def lookupEntry (type : CatalogType) (name : Str) : Option LokiTable :=
  if type ≠ .tableEntry then none
  else if ciEquals name "logs".toList then some (.logs schema.logsTable)
  else if ciEquals name "labels".toList then some (.labels schema.labelsTable)
  else if ciEquals name "series".toList then some (.series schema.seriesTable)
  else none

end LokiSchemaEntry

variable {schema : LokiSchemaEntry} {type : CatalogType} {name : Str} {table : LokiTable}

theorem lookupEntry_eq_some : schema.lookupEntry type name = some table ↔
    table ∈ schema.scan type ∧ ciEquals name table.name = true := by
  cases type with
  | other => simp [LokiSchemaEntry.lookupEntry, LokiSchemaEntry.scan]
  | tableEntry =>
    have hdistinct : ∀ {a b : Str}, lower a ≠ lower b → ciEquals name a = true →
        ¬ ciEquals name b = true := by
      intro a b hne ha hb
      exact hne ((ciEquals_iff.mp ha).symm.trans (ciEquals_iff.mp hb))
    constructor
    · intro h
      unfold LokiSchemaEntry.lookupEntry at h
      rw [if_neg (not_not.mpr rfl)] at h
      split_ifs at h with hlogs hlabels hseries
      · rw [← Option.some.inj h]
        exact ⟨List.mem_cons_self, hlogs⟩
      · rw [← Option.some.inj h]
        exact ⟨List.mem_cons_of_mem _ List.mem_cons_self, hlabels⟩
      · rw [← Option.some.inj h]
        exact ⟨List.mem_cons_of_mem _ (List.mem_cons_of_mem _ List.mem_cons_self), hseries⟩
    · intro ⟨hmem, hname⟩
      unfold LokiSchemaEntry.lookupEntry
      rw [if_neg (not_not.mpr rfl)]
      rcases List.mem_cons.mp hmem with rfl | hmem
      · exact if_pos hname
      · rcases List.mem_cons.mp hmem with rfl | hmem
        · replace hname : ciEquals name "labels".toList = true := hname
          rw [if_neg (hdistinct (by decide) hname), if_pos hname]
        · obtain rfl := List.mem_singleton.mp hmem
          replace hname : ciEquals name "series".toList = true := hname
          rw [if_neg (hdistinct (by decide) hname), if_neg (hdistinct (by decide) hname),
            if_pos hname]

end Entries

section Owner

variable {c : LokiCatalog} {s₀ s t : CatalogState} {tr : CatalogTrace} {nowNs : ℤ}
  {x : Machines.Transition CatalogState Action Event} {i : ℕ} {transaction : Option ℕ}
  {p : SnapshotPtr} {query : CatalogQuery} {answer : Except Str (List LokiSchemaEntry)}
  {schemas : List LokiSchemaEntry} {schema : LokiSchemaEntry} {snapshot : LokiCatalogSnapshot}

/-- An answer is that of a generation which the catalog has published. -/
theorem returned_from_heap (hrun : Machines.Run c.step s tr t) (hx : x ∈ tr)
    (hevent : x.event = .returned i transaction p query answer) :
    ∃ snapshot ∈ t.heap, answer = c.answer snapshot query := by
  obtain ⟨first, last, hsplit⟩ := List.append_of_mem hx
  rw [hsplit] at hrun
  obtain ⟨_, hvalid, hlast⟩ := hrun.around
  have heffect := step_effect hvalid
  rw [hevent] at heffect
  obtain ⟨snapshot, _, hderef, hanswer⟩ := heffect.of_returned
  obtain ⟨g, _, hget⟩ := Option.bind_eq_some_iff.mp hderef
  have hheap : x.before.heap <+: t.heap := by
    refine hlast.invariant (I := fun v ↦ x.before.heap <+: v.heap) ?_ heffect.heap
    exact fun _ _ _ _ hv hnext ↦ hv.trans (step_effect hnext).heap
  exact ⟨snapshot, hheap.subset (List.mem_of_getElem? hget), hanswer⟩

theorem mem_of_answer (h : c.answer snapshot query = .ok schemas) (hschema : schema ∈ schemas) :
    schema ∈ snapshot.schemas := by
  cases query with
  | lookupSchema name ifNotFound =>
    rw [LokiCatalog.answer] at h
    cases hlookup : lookupSchema c.name snapshot name ifNotFound with
    | error message =>
      rw [hlookup] at h
      cases h
    | ok found =>
      rw [hlookup] at h
      rw [← Except.ok.inj h] at hschema
      exact mem_of_lookupSchema (hlookup.trans (congrArg _ (Option.mem_toList.mp hschema)))
  | scanSchemas =>
    rw [← Except.ok.inj h] at hschema
    exact hschema

/-- The tenant that a schema is there for: the one it is named after, or that of
the connection. -/
def ownerOf (config : LokiCatalogConfig) (options : AttachOptions) (schema : LokiSchemaEntry) :
    Str :=
  if parseStringListOption options.tenants ≠ [] ∧ schema.name ≠ [] then schema.name
  else config.auth.tenant

variable {m : SecretManager} {server : ℕ → HttpCall → HttpResponse} {store : List Secret}
  {path : Str} {options : AttachOptions}

theorem attach_alone
    (h : (lokiAttach c.read server m store path options).run = some (.ok c.config))
    (hnone : parseStringListOption options.tenants = []) :
    ∀ tenant ∈ c.config.tenants, tenant.tenantId = c.config.auth.tenant := by
  obtain ⟨explicitLabels, htenants⟩ := attachTenants_of_attach h
  rw [attachTenants, if_pos hnone] at htenants
  cases hone : attachTenant c.read server c.config.endpoint c.config.auth explicitLabels
      "public".toList (c.config.auth.tenant, 0) with
  | error message =>
    rw [hone] at htenants
    cases htenants
  | ok tenant =>
    rw [hone] at htenants
    rw [← Except.ok.inj htenants]
    exact List.forall_mem_singleton.mpr (attachTenant_names hone).2

/-- Every schema of every generation sends its owner. -/
theorem schema_owner
    (hattach : (lokiAttach c.read server m store path options).run = some (.ok c.config))
    (h₀ : c.initializeState nowNs = some s₀) (hrun : Machines.Run c.step s₀ tr s)
    (hsnapshot : snapshot ∈ s.heap) (hschema : schema ∈ snapshot.schemas) :
    ∃ tenant, schema = schemaOf c.config tenant ∧
      scopeOrgIds (buildAuthHeaders (tenantAuth c.config.auth tenant.tenantId)) =
        tenantValues c.config.auth (ownerOf c.config options schema) := by
  obtain ⟨labels, version, heq⟩ := run_snapshotOf h₀ hrun snapshot hsnapshot
  rw [heq] at hschema
  obtain ⟨tenant, htenant, rfl⟩ := List.mem_map.mp hschema
  obtain ⟨j, hj, hrelabel⟩ := List.mem_mapIdx.mp htenant
  have hmem := List.getElem_mem hj
  have hid : tenant.tenantId = c.config.tenants[j].tenantId := by
    rw [← hrelabel]
    rfl
  have hname : tenant.schemaName = c.config.tenants[j].schemaName := by
    rw [← hrelabel]
    rfl
  refine ⟨tenant, rfl, ?_⟩
  rw [scopeOrgIds_tenantAuth, hid]
  apply congrArg
  unfold ownerOf
  rw [show (schemaOf c.config tenant).name = tenant.schemaName from rfl, hname]
  by_cases hnone : parseStringListOption options.tenants = []
  · rw [attach_alone hattach hnone _ hmem, ite_id]
    exact (if_neg (fun h ↦ h.1 hnone)).symm
  · rw [(attach_named hattach hnone).2 _ hmem]
    exact if_congr (and_iff_right hnone).symm rfl rfl

end Owner

section Query

variable {c : LokiCatalog} {s₀ s : CatalogState} {tr : CatalogTrace} {nowNs : ℤ}
  {x : Machines.Transition CatalogState Action Event} {i : ℕ} {transaction : Option ℕ}
  {p : SnapshotPtr} {query : CatalogQuery} {schemas : List LokiSchemaEntry}
  {schema : LokiSchemaEntry} {m : SecretManager} {server : ℕ → HttpCall → HttpResponse}
  {store : List Secret} {path : Str} {options : AttachOptions} {name : Str}
  {table : LokiLabelsTable} {directory : Directory}
  {client : ℕ → ClientRequest → Except Str (ℤ × Str)} {width : ℕ}
  {t : Streaming.Once (List HttpCall) DiscoveryRow}
  {calls : List (Machines.Transition (Streaming.Once (List HttpCall) DiscoveryRow) Unit
    (List Value))}

/-- However a statement has come by a schema, in any run of an attached catalog,
the table that it finds there as `labels` asks for the owner of the schema
alone, in one request at most, and hands out what Loki lists for that tenant. -/
theorem labels_query
    (hattach : (lokiAttach c.read server m store path options).run = some (.ok c.config))
    (h₀ : c.initializeState nowNs = some s₀) (hrun : Machines.Run c.step s₀ tr s) (hx : x ∈ tr)
    (hevent : x.event = .returned i transaction p query (.ok schemas)) (hschema : schema ∈ schemas)
    (hfound : schema.lookupEntry .tableEntry name = some (.labels table))
    (hendpoint : endpointProblem c.config.endpoint = [])
    (hserver : directory.Answers c.read client) (hwidth : 0 < width)
    (hcalls : Machines.Run (discoveryCall c.read (fun n call ↦ httpGet (client n) call) .labels
      (discoveryInitGlobal table.getScanFunction) width) { world := [] } calls t) :
    let values := tenantValues c.config.auth (ownerOf c.config options schema)
    let rows := directory.content values ⟨.labels, [], none, none, none⟩
    let handed := calls.flatMap Machines.Transition.event
    (t.world.length ≤ 1 ∧ ∀ call ∈ t.world, call.endpoint = c.config.endpoint ∧
      scopeOrgIds call.headers = values) ∧
      (∀ x ∈ calls, x.event.length ≤ width) ∧
      (∀ v ∈ handed, ∀ column ∈ table.columns, v.HasType column.type) ∧
      handed = (rows.take (calls.length * width)).map DiscoveryRow.value ∧
      ((∃ x ∈ calls, x.event = []) → handed = rows.map DiscoveryRow.value) ∧
      (rows.length < calls.length → ∃ x ∈ calls, x.event = []) := by
  intro values rows handed
  obtain ⟨snapshot, hsnapshot, hanswer⟩ := returned_from_heap hrun hx hevent
  obtain ⟨tenant, heq, hvalues⟩ :=
    schema_owner hattach h₀ hrun hsnapshot (mem_of_answer hanswer.symm hschema)
  have htable : table = schema.labelsTable := by
    have hlisted := (lookupEntry_eq_some.mp hfound).1
    simpa [LokiSchemaEntry.scan] using hlisted
  have hbound : table.getScanFunction = ⟨c.config.endpoint,
      tenantAuth c.config.auth tenant.tenantId, buildLabelsRequest (-1) (-1)⟩ := by
    rw [htable, heq]
    rfl
  have hcolumns : table.columns = [labelColumn "label".toList] := by
    rw [htable, heq]
    rfl
  rw [hbound] at hcalls
  obtain ⟨hlength, hsent⟩ := discovery_requests hcalls
  refine ⟨⟨hlength, ?_⟩, ?_⟩
  · intro call hcall
    obtain ⟨hto, hheaders⟩ := hsent call hcall
    rw [hheaders]
    exact ⟨hto, hvalues⟩
  · have hnil : IsBytes [] := List.forall_mem_nil _
    have hrequest : buildLabelsRequest (-1) (-1) = discoveryRequest .labels [] [] (-1) (-1) := rfl
    obtain ⟨hchunks, htypes, hhanded, hall, hends⟩ :=
      discovery_run hrequest hnil hnil hendpoint hserver hwidth hcalls
    dsimp only at htypes hhanded hall hends
    rw [← scopeOrgIds_buildAuthHeaders, hvalues] at hhanded hall hends
    refine ⟨hchunks, ?_, hhanded, hall, hends⟩
    intro v hv column hcolumn
    rw [hcolumns] at hcolumn
    rw [List.mem_singleton.mp hcolumn]
    exact htypes v hv

end Query

section Sample

def umbrellaLabels : Directory where
  content values q := if q.kind = .labels ∧ values = ["umbrella".toList] then
    [.text "app".toList] else []
  fits := by
    intro values q row hrow
    split_ifs at hrow with hasked
    · rw [List.mem_singleton.mp hrow, hasked.1]
      exact ⟨by decide, by decide⟩
    · exact absurd hrow List.not_mem_nil

def umbrellaRead (body : Str) : Option Json :=
  if body = seriesBody "" then
    some (.object [("status".toList, .string "success".toList), ("data".toList, .array [])])
  else appLabels.read body

def umbrellaClient (_ : ℕ) (request : ClientRequest) : Except Str (ℤ × Str) :=
  match DiscoveryQuery.ofTarget request.target with
  | none => .ok (400, "parse error".toList)
  | some q =>
    .ok (200, if umbrellaLabels.content (scopeOrgIds request.headers) q = [] then seriesBody ""
      else labelsBody)

theorem umbrellaLabels_answers : umbrellaLabels.Answers umbrellaRead umbrellaClient := by
  intro n request q hq
  have hclient : umbrellaClient n request =
      .ok (200, if umbrellaLabels.content (scopeOrgIds request.headers) q = [] then seriesBody ""
        else labelsBody) := by
    rw [umbrellaClient, hq]
  by_cases hasked : q.kind = .labels ∧ scopeOrgIds request.headers = ["umbrella".toList]
  · have hcontent : umbrellaLabels.content (scopeOrgIds request.headers) q =
        [.text "app".toList] := if_pos hasked
    rw [hcontent, if_neg (List.cons_ne_nil _ _)] at hclient
    rw [hcontent]
    have hread : umbrellaRead labelsBody = some (.object [("status".toList,
        .string "success".toList), ("data".toList, .array [.string "app".toList])]) := by
      rw [umbrellaRead, if_neg (by decide), appLabels]
      dsimp only
      rw [if_pos rfl]
    exact ⟨_, _, hclient, hread, [.string "app".toList], rfl, .cons rfl .nil⟩
  · have hcontent : umbrellaLabels.content (scopeOrgIds request.headers) q = [] := if_neg hasked
    rw [hcontent, if_pos rfl] at hclient
    rw [hcontent]
    exact ⟨_, _, hclient, if_pos rfl, [], rfl, .nil⟩

def labelsCatalog : LokiCatalog := { attachedTenants ["acme", "umbrella"] with read := umbrellaRead }

def umbrellaSchema : LokiSchemaEntry :=
  schemaOf labelsCatalog.config ⟨"umbrella".toList, "umbrella".toList, ["app".toList]⟩

def umbrellaLookup : CatalogQuery := .lookupSchema "Umbrella".toList .returnNull

theorem labels_query_umbrella : ∃ calls t,
    Machines.Run (discoveryCall umbrellaRead (fun n call ↦ httpGet (umbrellaClient n) call) .labels
      (discoveryInitGlobal umbrellaSchema.labelsTable.getScanFunction) 2) { world := [] } calls t ∧
    calls.flatMap Machines.Transition.event = [.varchar "app".toList] ∧ t.world.length ≤ 1 := by
  have hattach : (lokiAttach labelsCatalog.read (fun _ _ ↦ labelsResponse) .reference [] []
      (tenantsOption ["acme", "umbrella"])).run = some (.ok labelsCatalog.config) := by
    decide +kernel
  have hsome : (labelsCatalog.initializeState 0).isSome = true := by decide +kernel
  obtain ⟨s₀, hs₀⟩ := Option.isSome_iff_exists.mp hsome
  obtain ⟨snapshot, hbuild, heq⟩ := initializeState_eq hs₀
  have hlook : labelsCatalog.step s₀ (.find none umbrellaLookup) =
      some (s₀.spawn (.looking none umbrellaLookup (some 0)), .silent) := by
    rw [heq]
    rfl
  have hanswer : labelsCatalog.answer snapshot umbrellaLookup = .ok [umbrellaSchema] := by
    rw [eq_snapshotOf hbuild]
    rfl
  have hreturn : labelsCatalog.step (s₀.spawn (.looking none umbrellaLookup (some 0)))
      (.advance 0) = some ((s₀.spawn (.looking none umbrellaLookup (some 0))).put 0 .finished,
        .returned 0 none (some 0) umbrellaLookup (.ok [umbrellaSchema])) := by
    rw [← hanswer, heq]
    rfl
  have hexec : (Machines.exec (discoveryCall umbrellaRead
      (fun n call ↦ httpGet (umbrellaClient n) call) .labels
      (discoveryInitGlobal umbrellaSchema.labelsTable.getScanFunction) 2)
      { world := [] } [(), ()]).any
        (fun x ↦ decide (∃ call ∈ x.1, call.event = [])) = true := by decide +kernel
  obtain ⟨⟨calls, t⟩, hcalls, hempty⟩ := (Option.any_eq_true _ _).mp hexec
  have hrun := Machines.exec_run hcalls
  have hfound : umbrellaSchema.lookupEntry .tableEntry "LABELS".toList =
      some (.labels umbrellaSchema.labelsTable) := by decide
  obtain ⟨⟨hsent, _⟩, _, _, _, hall, _⟩ := labels_query hattach hs₀
    (.snoc (.single hlook) hreturn) (List.mem_append_right _ List.mem_cons_self) rfl
    List.mem_cons_self hfound (by decide) umbrellaLabels_answers Nat.two_pos hrun
  exact ⟨calls, t, hrun, hall (of_decide_eq_true hempty), hsent⟩

end Sample

end DuckdbLoki
