import DuckdbLoki.LokiServer
import DuckdbLoki.TtlDeadlines

namespace DuckdbLoki

open LokiCatalog

section Columns

variable {c : LokiCatalog} {s₀ t : CatalogState} {tr : CatalogTrace} {startNs : ℤ}

/-- Every generation of an attached catalog has labels that can be columns. -/
theorem run_discovered (hconfig : Accepted c.config) (h₀ : c.initializeState startNs = some s₀)
    (hrun : Machines.Run c.step s₀ tr t) :
    ∀ snapshot ∈ t.heap, ∃ labels version, snapshot = snapshotOf c.config labels version ∧
      Discovered c.config labels := by
  induction hrun with
  | nil =>
    obtain ⟨snapshot, hbuild, heq⟩ := initializeState_eq h₀
    rw [heq]
    intro other hother
    rw [List.mem_singleton.mp hother]
    refine ⟨_, 0, eq_snapshotOf hbuild, List.length_map _, ?_⟩
    intro names hnames
    obtain ⟨tenant, htenant, hlabels⟩ := List.mem_map.mp hnames
    exact hlabels ▸ hconfig.promotable tenant htenant
  | snoc hrun hstep ih =>
    rcases (step_effect hstep).publication_cases with
      ⟨_, _, _, hheap⟩ | ⟨i, caller, snapshot, hpublishing, _, heq⟩
    · rw [hheap]
      exact ih
    · obtain ⟨before, during, s, _, hbefore, hduring, hs⟩ :=
        run_began (initializeState_tasks h₀) hrun hpublishing rfl
      obtain ⟨generation, hgen⟩ := run_deref_current h₀ hbefore
      obtain ⟨task, htask, hprogress⟩ := run_progress h₀ hbefore hgen hs hduring
      rw [hpublishing] at htask
      rw [← Option.some.inj htask] at hprogress
      obtain ⟨_, _, _, fetched, hreplied, hlen, _, hsnapshot⟩ := hprogress
      intro other hother
      rw [heq] at hother
      rcases List.mem_append.mp hother with hother | hother
      · exact ih other hother
      · rw [List.mem_singleton.mp hother]
        exact ⟨fetched, _, hsnapshot, hreplied.discovered hlen⟩

theorem mem_snapshotOf {config : LokiCatalogConfig} {labels : List (List Str)} {version : ℕ}
    {schema : LokiSchemaEntry} (hlabels : Discovered config labels)
    (h : schema ∈ (snapshotOf config labels version).schemas) :
    ∃ tenant, schema = schemaOf config tenant ∧ Promotable tenant.labelColumns := by
  obtain ⟨tenant, htenant, heq⟩ := List.mem_map.mp h
  refine ⟨tenant, heq.symm, ?_⟩
  obtain ⟨i, hi, hrelabel⟩ := List.mem_mapIdx.mp htenant
  have hlt : i < labels.length := hlabels.length_eq ▸ hi
  rw [← hrelabel, relabel, List.getElem?_eq_getElem hlt]
  exact hlabels.promotable _ (List.getElem_mem hlt)

theorem mem_of_lookupSchema {catalogName name : Str} {snapshot : LokiCatalogSnapshot}
    {ifNotFound : OnEntryNotFound} {schema : LokiSchemaEntry}
    (h : lookupSchema catalogName snapshot name ifNotFound = .ok (some schema)) :
    schema ∈ snapshot.schemas := by
  unfold lookupSchema at h
  cases hfind : snapshot.schemas.find? (fun schema ↦ ciEquals schema.name name) with
  | some found =>
    rw [hfind] at h
    rw [← Option.some.inj (Except.ok.inj h)]
    exact List.mem_of_find?_eq_some hfind
  | none =>
    rw [hfind] at h
    cases ifNotFound <;> cases h

end Columns

section Slots

variable {virtual : ℕ → Bool} {labels : List Str} {get : LogicalGet}

/-- The columns of the schema are projected, and virtual columns. -/
def Projects (virtual : ℕ → Bool) (labels : List Str) (columnIds : List ℕ) : Prop :=
  ∀ src ∈ columnIds, virtual src = true ↔ (logsColumns labels).length ≤ src

def slotRow (slots : List Value) (i : ℕ) : Value := (slots[i]?).getD .null

theorem emitColumn_eq {src : ℕ} (h : virtual src = true ↔ (logsColumns labels).length ≤ src)
    (r : LokiRow) : emitColumn virtual labels r src = sourceValue labels r src := by
  cases hvirtual : virtual src with
  | false =>
    apply emitColumn_eq_sourceValue r hvirtual
    exact Nat.lt_of_not_le (fun hle ↦ Bool.false_ne_true (hvirtual.symm.trans (h.mpr hle)))
  | true =>
    have hle : 4 + labels.length ≤ src := by
      have hlen : (logsColumns labels).length = 4 + labels.length := by
        simp [logsColumns]
        omega
      exact hlen ▸ h.mp hvirtual
    unfold emitColumn sourceValue
    rw [hvirtual, if_pos rfl, if_neg (by omega), if_neg (by omega), if_neg (by omega),
      if_neg (by omega), if_neg (by omega)]

theorem slotRow_emitRow (h : Projects virtual labels get.columnIds) (r : LokiRow) :
    slotRow (emitRow virtual labels get.columnIds r) = get.row labels r := by
  funext i
  unfold slotRow emitRow LogicalGet.row
  rw [List.getElem?_map]
  cases hsrc : get.columnIds[i]? with
  | none => rfl
  | some src => exact emitColumn_eq (h src (List.mem_of_getElem? hsrc)) r

def keepRows (db : Database) (residuals : List Expression) (rows : List (List Value)) :
    List (List Value) :=
  rows.filter (fun slots ↦ residuals.all (fun e ↦ e.Holds db (slotRow slots)))

theorem keepRows_map (db : Database) (residuals : List Expression)
    (h : Projects virtual labels get.columnIds) (rows : List LokiRow) :
    keepRows db residuals (rows.map (emitRow virtual labels get.columnIds)) =
      (rows.filter (satisfies db get labels residuals)).map
        (emitRow virtual labels get.columnIds) := by
  rw [keepRows, List.filter_map]
  congr 1
  apply List.filter_congr
  intro r _
  rw [Function.comp_apply, slotRow_emitRow h]
  rfl

end Slots

section Query

variable {db : Database} {get : LogicalGet} {filters : List Expression} {stores : TenantStores}
  {read : Str → Option Json} {client : ℕ → ClientRequest → Except Str (ℤ × Str)}

theorem TableScan.select_eq {pushed : ScanBindData} (hscan : TableScan pushed)
    (engine : Regex.Engine) (s : Store) :
    (s.restrict (selects engine pushed.pushedMatchers pushed.pushedLineFilters)).select
        ⟨(pager pushed).logql,
          if (pager pushed).backward then (pager pushed).startNs else (pager pushed).cursorNs,
          if (pager pushed).backward then (pager pushed).cursorNs else (pager pushed).endNs,
          (pager pushed).requested, (pager pushed).backward⟩ =
      (selected engine s pushed).take 5000 := by
  have hcursor : (pager pushed).cursorNs = effectiveEnd pushed := if_pos hscan.pager_backward
  have hkeep : selects engine pushed.pushedMatchers pushed.pushedLineFilters =
      fun r ↦ decide (pushed.Accepts engine r) := funext (selects_eq engine pushed)
  rw [requested_first hscan.pager_valid rfl rfl hscan.userLimit_eq.le, hscan.pager_backward,
    if_pos rfl, if_pos rfl, hcursor, Store.select, Store.window_restrict, hscan.userLimit_eq, hkeep]
  rfl

def TableScan.state (pushed : ScanBindData) (columnIds : List ℕ) : ScanGlobalState where
  endpoint := pushed.endpoint
  headers := buildAuthHeaders pushed.auth ++
    [("X-Loki-Response-Encoding-Flags".toList, "categorize-labels".toList)]
  pager := pager pushed
  columnIds := columnIds

def TableScan.call (pushed : ScanBindData) : HttpCall :=
  ⟨pushed.endpoint, (pager pushed).request, buildAuthHeaders pushed.auth ++
    [("X-Loki-Response-Encoding-Flags".toList, "categorize-labels".toList)], 10, 60⟩

theorem TableScan.scopeOrgIds_state (pushed : ScanBindData) (columnIds : List ℕ) :
    scopeOrgIds (state pushed columnIds).headers = scopeOrgIds (buildAuthHeaders pushed.auth) := by
  rw [state, scopeOrgIds_append]
  exact List.append_nil _

inductive TableScan.SentOnce (pushed : ScanBindData) : PageSource → Prop
  | unsent : SentOnce pushed ⟨TableScan.pager pushed, []⟩
  | sent {q : StreamPager} : q.done = true → SentOnce pushed ⟨q, [TableScan.call pushed]⟩

theorem TableScan.fetchPage_eq {pushed : ScanBindData} (hscan : TableScan pushed)
    (hendpoint : endpointProblem pushed.endpoint = []) (hbytes : IsBytes (effectiveQuery pushed))
    (hserver : stores.Answers db.regex read client) (columnIds : List ℕ) :
    ∃ q rows, fetchPage read (fun n call ↦ httpGet (client n) call) pushed.fnName pushed.endpoint
        (state pushed columnIds).headers ⟨pager pushed, []⟩ =
          some (.ok (⟨q, [call pushed]⟩, rows)) ∧ q.done = true ∧
      rows.Perm ((selected db.regex
        (stores.store (scopeOrgIds (buildAuthHeaders pushed.auth))) pushed).take 5000) := by
  have hread : readSelection (pager pushed).logql =
      some (pushed.pushedMatchers, pushed.pushedLineFilters) := by
    have hlogql : (pager pushed).logql = effectiveQuery pushed := rfl
    rw [hlogql, hscan.query]
    exact readSelection_build hscan.labels _
  obtain ⟨page, hbody, hperm⟩ := hserver.page hendpoint (p := pager pushed) hbytes hread
    pushed.fnName (state pushed columnIds).headers 0
  rw [hscan.select_eq, scopeOrgIds_state] at hperm
  have hlen : ((pageRows page).length : ℤ) ≤ (pager pushed).userLimit := by
    rw [hperm.length_eq, hscan.userLimit_eq]
    exact_mod_cast List.length_take_le _ _
  obtain ⟨q, haccept, hdone⟩ := accept_only_page hscan.pager_valid rfl rfl
    hscan.userLimit_eq.le hlen
  refine ⟨q, pageRows page, ?_, hdone, hperm⟩
  have hnext : (pager pushed).nextRequest =
      some ((pager pushed).awaiting, (pager pushed).request) :=
    StreamPager.nextRequest_eq hscan.pager_valid
  unfold fetchPage
  rw [hnext]
  dsimp only [Option.bind_eq_bind, Option.bind_some, List.length_nil]
  rw [hbody]
  dsimp only
  rw [haccept]
  rfl

structure LogsQuery (db : Database) (virtual : ℕ → Bool) (labels : List Str) (get : LogicalGet)
    (filters : List Expression) : Prop where
  names : get.names = schemaNames labels
  projects : Projects virtual labels get.columnIds
  label : HasLabelEquality db get labels filters
  plain : ∀ e ∈ filters, Plain db get labels e

variable {virtual : ℕ → Bool} {labels : List Str} {endpoint : Str} {auth : AuthConfig} {nowNs : ℤ}
  {bind : ScanBindData} {width : ℕ}
  {calls : List (Machines.Transition (Streaming.Reader PageSource LokiRow) ℕ (List (List Value)))}
  {reader : Streaming.Reader PageSource LokiRow}

theorem LogsQuery.planned (h : LogsQuery db virtual labels get filters)
    (hlabels : Promotable labels) : Planned get labels := ⟨h.names, hlabels.unreserved⟩

theorem LogsQuery.tableScan (h : LogsQuery db virtual labels get filters)
    (hlabels : Promotable labels) (hbind : logsTableBind endpoint auth labels nowNs = some bind) :
    TableScan (pushdownComplexFilter db get bind filters).1 :=
  tableScan_pushed hbind (h.planned hlabels) hlabels.valid h.label

theorem LogsQuery.filter_residuals (h : LogsQuery db virtual labels get filters)
    (hlabels : Promotable labels) (hbind : logsTableBind endpoint auth labels nowNs = some bind)
    (hdb : db.Lawful) {rows : List LokiRow}
    (hrows : ∀ r ∈ rows, (pushdownComplexFilter db get bind filters).1.Accepts db.regex r) :
    rows.filter (satisfies db get labels (pushdownComplexFilter db get bind filters).2) =
      rows.filter (satisfies db get labels filters) := by
  apply List.filter_congr
  intro r hr
  rw [satisfies_pushed hbind (h.planned hlabels) hdb h.plain r, decide_eq_true (hrows r hr),
    Bool.and_true]

theorem accepts_of_mem_selected {engine : Regex.Engine} {s : Store} {r : LokiRow}
    (h : r ∈ selected engine s bind) : bind.Accepts engine r :=
  of_decide_eq_true (List.mem_filter.mp h).2

theorem LogsQuery.filter_selected (h : LogsQuery db virtual labels get filters)
    (hlabels : Promotable labels) (hbind : logsTableBind endpoint auth labels nowNs = some bind)
    (hdb : db.Lawful) (s : Store) :
    let pushed := (pushdownComplexFilter db get bind filters).1
    (selected db.regex s pushed).filter (satisfies db get labels filters) =
      (s.window true (effectiveStart pushed) (effectiveEnd pushed)).filter
        (satisfies db get labels filters) := by
  intro pushed
  rw [selected, List.filter_filter]
  apply List.filter_congr
  intro r _
  rw [satisfies_pushed hbind (h.planned hlabels) hdb h.plain r, Bool.and_assoc, Bool.and_self]

theorem TableScan.SentOnce.fetch {pushed : ScanBindData} (hscan : TableScan pushed)
    (hendpoint : endpointProblem pushed.endpoint = []) (hbytes : IsBytes (effectiveQuery pushed))
    (hserver : stores.Answers db.regex read client) {columnIds : List ℕ} {s t : PageSource}
    {batch : List LokiRow} (h : SentOnce pushed s) (ho : s.pager.done = false)
    (hnext : fetchPage read (fun n call ↦ httpGet (client n) call) pushed.fnName pushed.endpoint
      (state pushed columnIds).headers s = some (.ok (t, batch))) :
    SentOnce pushed t := by
  cases h with
  | unsent =>
    obtain ⟨q, rows, hfetch, hdone, _⟩ := hscan.fetchPage_eq hendpoint hbytes hserver columnIds
    obtain ⟨ht, _⟩ := Prod.mk.inj (Except.ok.inj (Option.some.inj (hfetch.symm.trans hnext)))
    exact ht ▸ .sent hdone
  | sent hdone => exact absurd (hdone.symm.trans ho) (by decide)

theorem TableScan.SentOnce.sent_eq {pushed : ScanBindData} {s : PageSource}
    (h : SentOnce pushed s) : s.sent = [] ∨ s.sent = [call pushed] := by
  cases h with
  | unsent => exact Or.inl rfl
  | sent _ => exact Or.inr rfl

theorem TableScan.sent {pushed : ScanBindData} (hscan : TableScan pushed)
    (hendpoint : endpointProblem pushed.endpoint = []) (hbytes : IsBytes (effectiveQuery pushed))
    (hserver : stores.Answers db.regex read client) {columnIds : List ℕ}
    (hrun : Machines.Run (scanCall read (fun n call ↦ httpGet (client n) call) virtual width
      pushed (state pushed columnIds)) (state pushed columnIds).reader calls reader) :
    reader.source.sent = [] ∨ reader.source.sent = [call pushed] := by
  have honce : SentOnce pushed reader.source := by
    refine Streaming.Source.run_induction (I := fun r _ ↦ SentOnce pushed r.source)
      (fun _ _ _ h _ ↦ h) ?_ .unsent hrun
    intro r _ s batch hr _ hopen hnext
    exact hr.fetch hscan hendpoint hbytes hserver hopen hnext
  exact honce.sent_eq

/-- What a scan of the table has sent and handed out, at any point of it. -/
theorem TableScan.run {pushed : ScanBindData} (hscan : TableScan pushed)
    (hendpoint : endpointProblem pushed.endpoint = []) (hbytes : IsBytes (effectiveQuery pushed))
    (hserver : stores.Answers db.regex read client) {columnIds : List ℕ} (hwidth : 0 < width)
    (hrun : Machines.Run (scanCall read (fun n call ↦ httpGet (client n) call) virtual width
      pushed (state pushed columnIds)) (state pushed columnIds).reader calls reader) :
    (reader.source.sent = [] ∨ reader.source.sent = [call pushed]) ∧
      (∀ x ∈ calls, x.event.length ≤ width) ∧
      (5000 < calls.length → ∃ x ∈ calls, x.event = []) ∧
      ((∃ x ∈ calls, x.event = []) → ∃ rows : List LokiRow, Streaming.Source.handedOut calls =
          rows.map (emitRow virtual pushed.labelColumns columnIds) ∧
        rows.Perm ((selected db.regex
          (stores.store (scopeOrgIds (buildAuthHeaders pushed.auth))) pushed).take 5000)) := by
  obtain ⟨q, rows, hfetch, hdone, hrows⟩ :=
    hscan.fetchPage_eq hendpoint hbytes hserver columnIds
  have hpages : (pageSource read (fun n call ↦ httpGet (client n) call) pushed
      (state pushed columnIds)).Delivers ⟨(state pushed columnIds).pager, []⟩ [rows] :=
    .fetch rfl hfetch (.done hdone)
  have hstreams := streams_reader hpages
  have hflat : [rows].flatten = rows := List.append_nil rows
  rw [hflat] at hstreams
  refine ⟨?_, hstreams.chunk_le hrun, ?_, ?_⟩
  · exact hscan.sent hendpoint hbytes hserver hrun
  · intro hmany
    apply hstreams.ends hrun
    have hle := hrows.length_eq ▸ List.length_take_le 5000 _
    omega
  · intro hends
    exact ⟨rows, hstreams.all_handed_out hrun hwidth hends, hrows⟩

end Query

section Isolation

variable {m : SecretManager} {server : ℕ → HttpCall → HttpResponse} {store : List Secret}
  {path : Str} {options : AttachOptions} {c : LokiCatalog} {s₀ s : CatalogState}
  {tr : CatalogTrace} {startNs nowNs : ℤ} {snapshot : LokiCatalogSnapshot} {tenantId : Str}
  {ifNotFound : OnEntryNotFound} {schema : LokiSchemaEntry} {db : Database} {virtual : ℕ → Bool}
  {get : LogicalGet} {filters : List Expression} {stores : TenantStores}
  {client : ℕ → ClientRequest → Except Str (ℤ × Str)} {bind : ScanBindData} {width : ℕ}

theorem tenantSchema_eq
    (hattach : (lokiAttach c.read server m store path options).run = some (.ok c.config))
    (htenant : tenantId ∈ parseStringListOption options.tenants)
    (hfirst : (parseStringListOption options.tenants).find? (fun t ↦ ciEquals t tenantId) =
      some tenantId) (hnone : tenantId = [] → c.config.auth.tenant = [])
    (h₀ : c.initializeState startNs = some s₀) (hrun : Machines.Run c.step s₀ tr s)
    (hsnapshot : snapshot ∈ s.heap)
    (hlookup : lookupSchema c.name snapshot tenantId ifNotFound = .ok (some schema)) :
    ∃ tenant, schema = schemaOf c.config tenant ∧ Promotable tenant.labelColumns ∧
      scopeOrgIds (buildAuthHeaders (tenantAuth c.config.auth tenant.tenantId)) =
        tenantValues c.config.auth tenantId := by
  obtain ⟨labels, version, heq, hlabels⟩ :=
    run_discovered (attach_accepted hattach) h₀ hrun snapshot hsnapshot
  have hmem := mem_of_lookupSchema hlookup
  rw [heq] at hmem
  obtain ⟨tenant, hschema, hpromotable⟩ := mem_snapshotOf hlabels hmem
  refine ⟨tenant, hschema, hpromotable, ?_⟩
  obtain ⟨hschemas, hnamed⟩ := attach_named hattach (List.ne_nil_of_mem htenant)
  rw [heq] at hlookup
  obtain ⟨named, hid, hfound⟩ :=
    lookupSchema_snapshotOf hnamed (hschemas.symm ▸ hfirst) c.name labels version ifNotFound
  rw [hlookup] at hfound
  have hsame : schemaOf c.config tenant = schemaOf c.config named :=
    hschema.symm.trans (Option.some.inj (Except.ok.inj hfound))
  rw [← sends_schemaOf_iff, hsame, sends_schemaOf_iff, hid]
  exact (sent_iff (decide_eq_true rfl) c.config.auth).mpr ⟨rfl, hnone⟩

/-- In every state of an attached catalog, a query on the logs of a tenant asks
for that tenant alone, in one request at most, and what is left of the chunks
once the stream has ended are the rows of the tenant that satisfy the query:
all of them, where Loki selects no more than it sends at once. -/
theorem tenant_query
    (hattach : (lokiAttach c.read server m store path options).run = some (.ok c.config))
    (htenant : tenantId ∈ parseStringListOption options.tenants)
    (hfirst : (parseStringListOption options.tenants).find? (fun t ↦ ciEquals t tenantId) =
      some tenantId) (hnone : tenantId = [] → c.config.auth.tenant = [])
    (h₀ : c.initializeState startNs = some s₀) (hrun : Machines.Run c.step s₀ tr s)
    (hsnapshot : snapshot ∈ s.heap)
    (hlookup : lookupSchema c.name snapshot tenantId ifNotFound = .ok (some schema))
    (hbind : schema.logsTable.getScanFunction nowNs = some bind)
    (hquery : LogsQuery db virtual bind.labelColumns get filters) (hdb : db.Lawful)
    (hbytes : IsBytes (effectiveQuery (pushdownComplexFilter db get bind filters).1))
    (hendpoint : endpointProblem c.config.endpoint = [])
    (hserver : stores.Answers db.regex c.read client) (hwidth : 0 < width) :
    let pushed := (pushdownComplexFilter db get bind filters).1
    let residuals := (pushdownComplexFilter db get bind filters).2
    let own := stores.store (tenantValues c.config.auth tenantId)
    let window := own.window true (effectiveStart pushed) (effectiveEnd pushed)
    let emit := emitRow virtual bind.labelColumns get.columnIds
    ∃ state, scanInitGlobal pushed get.columnIds = .ok state ∧
      ∀ calls reader, Machines.Run (scanCall c.read (fun n call ↦ httpGet (client n) call) virtual
          width pushed state) state.reader calls reader →
        (reader.source.sent.length ≤ 1 ∧ ∀ call ∈ reader.source.sent,
          call.endpoint = c.config.endpoint ∧
            scopeOrgIds call.headers = tenantValues c.config.auth tenantId) ∧
        (∀ x ∈ calls, x.event.length ≤ width) ∧
        (5000 < calls.length → ∃ x ∈ calls, x.event = []) ∧
        ((∃ x ∈ calls, x.event = []) →
          let rows := keepRows db residuals (Streaming.Source.handedOut calls)
          rows.Perm ((((selected db.regex own pushed).take 5000).filter
            (satisfies db get bind.labelColumns filters)).map emit) ∧
          ((selected db.regex own pushed).length ≤ 5000 →
            rows.Perm ((window.filter (satisfies db get bind.labelColumns filters)).map emit))) := by
  intro pushed residuals own window emit
  obtain ⟨tenant, rfl, hlabels, hvalues⟩ :=
    tenantSchema_eq hattach htenant hfirst hnone h₀ hrun hsnapshot hlookup
  have hbind' : logsTableBind c.config.endpoint (tenantAuth c.config.auth tenant.tenantId)
      tenant.labelColumns nowNs = some bind := hbind
  have hcolumns : bind.labelColumns = tenant.labelColumns := (logsTableBind_spec hbind').2.1
  obtain ⟨hourAgo, _, hbound⟩ := Option.map_eq_some_iff.mp hbind'
  have honto : PushedOnto bind pushed := pushedOnto_foldl db get filters (bind, [])
  have hpushedLabels : pushed.labelColumns = bind.labelColumns := honto.labelColumns
  have hpushedEndpoint : pushed.endpoint = c.config.endpoint := by
    rw [honto.frame, ← hbound]
  have hpushedValues : scopeOrgIds (buildAuthHeaders pushed.auth) =
      tenantValues c.config.auth tenantId := by
    have hauth : pushed.auth = tenantAuth c.config.auth tenant.tenantId := by
      rw [honto.frame, ← hbound]
    rw [hauth]
    exact hvalues
  rw [hcolumns] at hquery
  have hscan : TableScan pushed := hquery.tableScan hlabels hbind'
  refine ⟨TableScan.state pushed get.columnIds, hscan.scanInitGlobal_eq get.columnIds, ?_⟩
  intro calls reader hcalls
  obtain ⟨hsent, hchunks, hends, hrows⟩ :=
    hscan.run (hpushedEndpoint ▸ hendpoint) hbytes hserver hwidth hcalls
  refine ⟨?_, hchunks, hends, ?_⟩
  · rcases hsent with hsent | hsent
    · rw [hsent]
      exact ⟨Nat.zero_le 1, nofun⟩
    · rw [hsent]
      refine ⟨Nat.le_refl 1, List.forall_mem_singleton.mpr ⟨hpushedEndpoint, ?_⟩⟩
      exact (TableScan.scopeOrgIds_state pushed []).trans hpushedValues
  · intro hempty rows
    obtain ⟨handed, hhanded, hperm⟩ := hrows hempty
    rw [hpushedValues] at hperm
    have hkept : rows =
        ((handed.filter (satisfies db get bind.labelColumns residuals)).map emit) := by
      change keepRows db residuals _ = _
      rw [hhanded, hpushedLabels]
      exact keepRows_map db residuals (hcolumns ▸ hquery.projects) handed
    have haccepted : ∀ r ∈ handed, pushed.Accepts db.regex r := by
      intro r hr
      exact accepts_of_mem_selected (List.mem_of_mem_take (hperm.mem_iff.mp hr))
    have hfilter : handed.filter (satisfies db get bind.labelColumns residuals) =
        handed.filter (satisfies db get bind.labelColumns filters) := by
      rw [hcolumns]
      exact hquery.filter_residuals hlabels hbind' hdb haccepted
    have hfirst : rows.Perm ((((selected db.regex own pushed).take 5000).filter
        (satisfies db get bind.labelColumns filters)).map emit) := by
      rw [hkept, hfilter]
      exact (hperm.filter _).map emit
    refine ⟨hfirst, ?_⟩
    intro hfew
    have hwindow := hquery.filter_selected hlabels hbind' hdb own
    rw [List.take_of_length_le hfew, hcolumns] at hfirst
    rw [hcolumns, ← hwindow]
    exact hfirst

end Isolation

section Samples

def tenantLine (values : List Str) : Option String :=
  if values = ["acme".toList] then some "down"
  else if values = ["umbrella".toList] then some "up"
  else none

def lineRow (line : String) : LokiRow := ⟨-7, line.toList, (sampleChunk []).labels, .empty⟩

def twoTenants : TenantStores where
  store values := .ofList ((tenantLine values).map lineRow).toList
  sendable := by
    intro values r hr
    have hmem := (List.perm_insertionSort _ _).mem_iff.mp hr
    obtain ⟨line, hline, rfl⟩ := Option.map_eq_some_iff.mp (Option.mem_toList.mp hmem)
    have hnul : '\x00' ∉ line.toList := by
      unfold tenantLine at hline
      split_ifs at hline <;> rw [← Option.some.inj hline] <;> decide
    exact ⟨by show InInt64 (-7); decide, hnul,
      by show (sampleChunk []).labels.NulFree; decide, nofun⟩

def emptyBody : Str :=
  ("\x7b\"status\":\"success\",\"data\":\x7b\"resultType\":\"streams\",\"result\":[]\x7d" ++
    "\x7d").toList

def tenantClient (_ : ℕ) (request : ClientRequest) : Except Str (ℤ × Str) :=
  let values := scopeOrgIds request.headers
  match (RangeQuery.ofTarget request.target).bind (fun q ↦ (readSelection q.query).map (fun (ms, fs) ↦
      ((twoTenants.store values).restrict (selects Regex.reference ms fs)).select q)) with
  | none => .ok (400, "parse error".toList)
  | some [] => .ok (200, emptyBody)
  | some (_ :: _) => .ok (200, sampleBody ((tenantLine values).getD ""))

def tenantRead (body : Str) : Option Json :=
  if body = emptyBody then some (renderStreams [])
  else if body = sampleBody "up" then some (renderStreams [sampleChunk "up".toList])
  else if body = sampleBody "down" then some (renderStreams [sampleChunk "down".toList])
  else appLabels.read body

theorem tenantRead_sampleBody {values : List Str} {line : String}
    (h : tenantLine values = some line) :
    tenantRead (sampleBody line) = some (renderStreams [sampleChunk line.toList]) := by
  unfold tenantLine at h
  split_ifs at h
  · rw [← Option.some.inj h]
    exact (if_neg (by decide +kernel)).trans ((if_neg (by decide +kernel)).trans (if_pos rfl))
  · rw [← Option.some.inj h]
    exact (if_neg (by decide +kernel)).trans (if_pos rfl)

theorem twoTenants_answers : twoTenants.Answers Regex.reference tenantRead tenantClient := by
  intro n request q ms fs hq hread
  have hclient : tenantClient n request = match some (((twoTenants.store
      (scopeOrgIds request.headers)).restrict (selects Regex.reference ms fs)).select q) with
    | none => .ok (400, "parse error".toList)
    | some [] => .ok (200, emptyBody)
    | some (_ :: _) => .ok (200, sampleBody ((tenantLine (scopeOrgIds request.headers)).getD "")) := by
    unfold tenantClient
    dsimp only
    rw [hq, Option.bind_some, hread]
    rfl
  have hsub : (((twoTenants.store (scopeOrgIds request.headers)).restrict
      (selects Regex.reference ms fs)).select q).Sublist
        ((tenantLine (scopeOrgIds request.headers)).map lineRow).toList := by
    apply (List.take_sublist _ _).trans
    apply List.filter_sublist.trans
    apply List.filter_sublist.trans
    change (List.insertionSort _ _).Sublist _
    cases (tenantLine (scopeOrgIds request.headers)).map lineRow with
    | none => exact .slnil
    | some row => exact .refl _
  cases hline : tenantLine (scopeOrgIds request.headers) with
  | none =>
    rw [hline] at hsub
    have hnone := List.eq_nil_of_sublist_nil hsub
    rw [hnone] at hclient ⊢
    exact ⟨_, _, [], hclient, rfl, rendersStreams_renderStreams [], .nil⟩
  | some line =>
    rw [hline] at hsub hclient
    rcases List.sublist_singleton.mp hsub with hnone | hone
    · rw [hnone] at hclient ⊢
      exact ⟨_, _, [], hclient, rfl, rendersStreams_renderStreams [], .nil⟩
    · rw [hone] at hclient ⊢
      exact ⟨_, _, [sampleChunk line.toList], hclient, tenantRead_sampleBody hline,
        rendersStreams_renderStreams _, .refl _⟩

def tenantCatalog : LokiCatalog := { attachedTenants ["acme", "umbrella"] with read := tenantRead }

def webGet : LogicalGet := ⟨[0, 1, 2], schemaNames ["app".toList]⟩

def upFilters : List Expression :=
  [labelEquals 2 "web".toList, .comparison .eq (.columnRef 1) (.constant (.varchar "up".toList))]

def umbrellaBind : ScanBindData where
  pushdownMode := true
  endpoint := "http://loki:3100".toList
  auth := ⟨[], [], [], "umbrella".toList, []⟩
  labelColumns := ["app".toList]
  fnName := "loki logs".toList
  selectorHint := "add a WHERE equality/IN on a label column, e.g. WHERE job = 'api'".toList
  endNs := 0
  startNs := -nanosPerHour

theorem upFilters_query :
    LogsQuery .reference (fun _ ↦ false) ["app".toList] webGet upFilters where
  names := rfl
  projects := by unfold Projects; decide
  label := ⟨false, .columnRef 2, .constant (.varchar "web".toList), "app".toList,
    .varchar "web".toList, List.mem_cons_self, rfl, List.mem_cons_self,
    evalConstant_constant (by simp)⟩
  plain := by
    intro e he
    simp only [upFilters, List.mem_cons, List.not_mem_nil, or_false] at he
    rcases he with rfl | rfl
    · exact plain_labelEquals (by decide)
    · refine fun _ ↦ ⟨fun name v hcol _ hl ↦ ?_, fun name v hcol ↦ nomatch hcol⟩
      rw [List.mem_singleton.mp hl] at hcol
      exact absurd hcol (by decide)

theorem tenant_query_umbrella :
    let pushed := (pushdownComplexFilter .reference webGet umbrellaBind upFilters).1
    ∃ state calls reader, scanInitGlobal pushed webGet.columnIds = .ok state ∧
      Machines.Run (scanCall tenantRead (fun n call ↦ httpGet (tenantClient n) call) (fun _ ↦ false)
        2 pushed state) state.reader calls reader ∧ (∃ x ∈ calls, x.event = []) ∧
      (keepRows .reference (pushdownComplexFilter .reference webGet umbrellaBind upFilters).2
        (Streaming.Source.handedOut calls)).Perm
          [[.temporal .timestampNs (-7), .varchar "up".toList, .varchar "web".toList]] := by
  intro pushed
  have hattach : (lokiAttach tenantCatalog.read (fun _ _ ↦ labelsResponse) .reference [] []
      (tenantsOption ["acme", "umbrella"])).run = some (.ok tenantCatalog.config) := by
    decide +kernel
  have htenant : "umbrella".toList ∈
      parseStringListOption (tenantsOption ["acme", "umbrella"]).tenants := by decide
  have hsome : (tenantCatalog.initializeState 0).isSome = true := by decide +kernel
  obtain ⟨s₀, hs₀⟩ := Option.isSome_iff_exists.mp hsome
  obtain ⟨snapshot, hbuild, heq⟩ := initializeState_eq hs₀
  have hsnapshot : snapshot ∈ s₀.heap := by
    rw [heq]
    exact List.mem_singleton_self snapshot
  have hlookup : lookupSchema tenantCatalog.name snapshot "umbrella".toList .returnNull =
      .ok (some (schemaOf tenantCatalog.config
        ⟨"umbrella".toList, "umbrella".toList, ["app".toList]⟩)) := by
    rw [eq_snapshotOf hbuild]
    rfl
  have hbind : (schemaOf tenantCatalog.config
      ⟨"umbrella".toList, "umbrella".toList, ["app".toList]⟩).logsTable.getScanFunction 0 =
        some umbrellaBind := by decide
  obtain ⟨state, hstate, hscan⟩ := tenant_query hattach htenant (by decide) (by decide) hs₀ .nil
    hsnapshot hlookup hbind upFilters_query Database.reference_lawful (by decide +kernel)
    (by decide) twoTenants_answers Nat.two_pos
  have hstart : scanInitGlobal pushed webGet.columnIds =
      .ok (TableScan.state pushed webGet.columnIds) := by rfl
  obtain rfl := Except.ok.inj (hstate.symm.trans hstart)
  have hexec : (Machines.exec (scanCall tenantRead (fun n call ↦ httpGet (tenantClient n) call)
      (fun _ ↦ false) 2 pushed (TableScan.state pushed webGet.columnIds))
      (TableScan.state pushed webGet.columnIds).reader [4, 4]).any
        (fun x ↦ decide (∃ call ∈ x.1, call.event = [])) = true := by decide +kernel
  obtain ⟨⟨calls, reader⟩, hcalls, hempty⟩ := (Option.any_eq_true _ _).mp hexec
  have hrun := Machines.exec_run hcalls
  obtain ⟨_, _, _, hrows⟩ := hscan calls reader hrun
  refine ⟨_, calls, reader, hstart, hrun, of_decide_eq_true hempty, ?_⟩
  exact (hrows (of_decide_eq_true hempty)).1

end Samples

end DuckdbLoki
