import DuckdbLoki.DiscoveryServer
import DuckdbLoki.TenantQueries

namespace DuckdbLoki

open LokiCatalog

section Function

/-- The text of the error for an answer over the cap; its dash is in UTF-8. -/
def tooManySeries (fnName : Str) (count maxRows : ℕ) : Str :=
  fnName ++ ": the selector matched ".toList ++ toDecimal count ++ " series, over the ".toList ++
    toDecimal maxRows ++
    ("-row cap \u00e2\u0080\u0094 narrow the WHERE clause or the time window, or raise it with " ++
      "ATTACH ... (TYPE loki, series_max_rows N). Loki's /series endpoint cannot page, so the " ++
      "whole result must be held in memory").toList

def SeriesScanGlobalState.call (state : SeriesScanGlobalState) : HttpCall :=
  ⟨state.endpoint, state.request, state.headers, 10, 60⟩

variable (read : Str → Option Json) (server : ℕ → HttpCall → HttpResponse) (virtual : ℕ → Bool)
  (maxRows : ℕ) (bind : ScanBindData) (state : SeriesScanGlobalState)

def fetchSeries (sent : List HttpCall) : Except Str (List HttpCall × List StringMap) :=
  match responseBody bind.fnName (server sent.length state.call) with
  | .error message => .error message
  | .ok body =>
    match parseSeriesResponse read body with
    | .error message => .error (bind.fnName ++ ": ".toList ++ message)
    | .ok rows =>
      if maxRows < rows.length then .error (tooManySeries bind.fnName rows.length maxRows)
      else .ok (sent ++ [state.call], rows)

def lokiSeriesScanFunction (width : ℕ) (progress : Streaming.Once (List HttpCall) StringMap) :
    Except Str (Streaming.Once (List HttpCall) StringMap × List (List Value)) :=
  Streaming.Once.call (fetchSeries read server maxRows bind state) width
    (emitSeriesRow virtual bind.labelColumns state.columnIds) progress

def seriesCall (width : ℕ) (progress : Streaming.Once (List HttpCall) StringMap) (_ : Unit) :
    Option (Streaming.Once (List HttpCall) StringMap × List (List Value)) :=
  (lokiSeriesScanFunction read server virtual maxRows bind state width progress).toOption

end Function

section Runs

variable {read : Str → Option Json} {server : ℕ → HttpCall → HttpResponse} {virtual : ℕ → Bool}
  {maxRows : ℕ} {bind : ScanBindData} {state : SeriesScanGlobalState} {width : ℕ}
  {selected : List StringMap} {message : Str} {t : Streaming.Once (List HttpCall) StringMap}
  {calls : List (Machines.Transition (Streaming.Once (List HttpCall) StringMap) Unit
    (List (List Value)))}

/-- The calls of a scan whose answer is refused where it is longer than the cap. -/
theorem series_run (hfetch : fetchSeries read server maxRows bind state [] =
      if maxRows < selected.length then .error message else .ok ([state.call], selected))
    (hwidth : 0 < width)
    (hrun : Machines.Run (seriesCall read server virtual maxRows bind state width)
      { world := [] } calls t) :
    (t.world.length ≤ 1 ∧ ∀ call ∈ t.world, call = state.call) ∧
      (∀ x ∈ calls, x.event.length ≤ width) ∧
      (calls.flatMap Machines.Transition.event).length ≤ maxRows ∧
      (selected.length < calls.length → ∃ x ∈ calls, x.event = []) ∧
      ((∃ x ∈ calls, x.event = []) → calls.flatMap Machines.Transition.event =
        selected.map (emitSeriesRow virtual bind.labelColumns state.columnIds)) := by
  by_cases hmany : maxRows < selected.length
  · obtain ⟨rfl, rfl⟩ := Streaming.Once.run_refused (hfetch.trans (if_pos hmany)) hrun
    refine ⟨⟨Nat.zero_le 1, nofun⟩, nofun, Nat.zero_le _, ?_, ?_⟩
    · exact fun h ↦ absurd h (Nat.not_lt_zero _)
    · rintro ⟨x, hx, _⟩
      exact absurd hx List.not_mem_nil
  · have hanswer := hfetch.trans (if_neg hmany)
    obtain ⟨hchunks, hhanded, hall, hends⟩ := Streaming.Once.run_chunks hwidth hanswer hrun
    refine ⟨?_, hchunks, ?_, hends, hall⟩
    · rw [(Streaming.Once.run_eq hanswer hrun).1]
      split_ifs
      · exact ⟨Nat.zero_le 1, nofun⟩
      · exact ⟨Nat.le_refl 1, List.forall_mem_singleton.mpr rfl⟩
    · rw [hhanded, List.length_map]
      exact (List.length_take_le' _ _).trans (Nat.le_of_not_lt hmany)

end Runs

section Columns

def seriesNames (labelColumns : List Str) : List Str := labelColumns ++ ["labels".toList]

def seriesSourceValue (labelColumns : List Str) (m : StringMap) (src : ℕ) : Value :=
  if src < labelColumns.length then
    match (labelColumns[src]?).bind m.find with
    | some v => .varchar v
    | none => .null
  else if src = labelColumns.length then .map m.pairs
  else .null

def LogicalGet.seriesRow (get : LogicalGet) (labelColumns : List Str) (m : StringMap) (i : ℕ) :
    Value :=
  match get.columnIds[i]? with
  | some src => seriesSourceValue labelColumns m src
  | none => .null

/-- The place of a column of the table among those of the logs, which begin with
the timestamp and the line. -/
def shiftColumn (labelColumns : List Str) (src : ℕ) : ℕ :=
  if src ≤ labelColumns.length then src + 2 else labelColumns.length + 4 + src

def LogicalGet.ofLogs (get : LogicalGet) (labelColumns : List Str) : LogicalGet :=
  ⟨get.columnIds.map (shiftColumn labelColumns), schemaNames labelColumns⟩

def seriesEntry (m : StringMap) : LokiRow := ⟨0, [], m, .empty⟩

variable {labels : List Str} {get : LogicalGet}

theorem schemaNames_shiftColumn (src : ℕ) :
    (schemaNames labels)[shiftColumn labels src]? = (seriesNames labels)[src]? := by
  have hsplit : schemaNames labels = "timestamp".toList :: "line".toList ::
      (seriesNames labels ++ ["structured_metadata".toList]) := by
    simp [schemaNames, seriesNames]
  have hlen : (seriesNames labels).length = labels.length + 1 := List.length_append
  unfold shiftColumn
  split_ifs with hsrc
  · rw [hsplit, List.getElem?_cons_succ, List.getElem?_cons_succ]
    exact List.getElem?_append_left (by omega)
  · have hlen' := congrArg List.length hsplit
    rw [List.length_cons, List.length_cons, List.length_append, List.length_singleton] at hlen'
    rw [List.getElem?_eq_none (by omega), List.getElem?_eq_none (by omega)]

theorem sourceValue_shiftColumn (m : StringMap) (src : ℕ) :
    sourceValue labels (seriesEntry m) (shiftColumn labels src) =
      seriesSourceValue labels m src := by
  unfold sourceValue seriesSourceValue
  rcases Nat.lt_trichotomy src labels.length with hlt | heq | hgt
  · have hshift : shiftColumn labels src = src + 2 := if_pos hlt.le
    rw [hshift, if_neg (by omega), if_neg (by omega), if_pos (by omega), if_pos hlt,
      Nat.add_sub_cancel]
    rfl
  · have hshift : shiftColumn labels src = src + 2 := if_pos heq.le
    rw [hshift, if_neg (by omega), if_neg (by omega), if_neg (by omega), if_pos (by omega),
      if_neg (by omega), if_pos heq]
    rfl
  · have hshift : shiftColumn labels src = labels.length + 4 + src := if_neg (by omega)
    rw [hshift, if_neg (by omega), if_neg (by omega), if_neg (by omega), if_neg (by omega),
      if_neg (by omega), if_neg (by omega), if_neg (by omega)]

theorem resolveColumnName_ofLogs (hnames : get.names = seriesNames labels) :
    resolveColumnName (get.ofLogs labels) = resolveColumnName get := by
  funext e
  unfold resolveColumnName
  cases stripCast e with
  | columnRef proj =>
    dsimp only [LogicalGet.ofLogs]
    rw [List.getElem?_map, hnames]
    cases get.columnIds[proj]? with
    | none => rfl
    | some src => exact schemaNames_shiftColumn src
  | _ => rfl

theorem row_ofLogs (m : StringMap) :
    (get.ofLogs labels).row labels (seriesEntry m) = get.seriesRow labels m := by
  funext i
  unfold LogicalGet.row LogicalGet.seriesRow
  dsimp only [LogicalGet.ofLogs]
  rw [List.getElem?_map]
  cases get.columnIds[i]? with
  | none => rfl
  | some src => exact sourceValue_shiftColumn m src

end Columns

section Resolved

variable {db : Database} {get get' : LogicalGet}

/-- A filter is translated by the names of the columns it refers to. -/
theorem pushdownComplexFilter_congr (h : resolveColumnName get = resolveColumnName get') :
    pushdownComplexFilter db get = pushdownComplexFilter db get' := by
  have hcomparison : tryComparison db get = tryComparison db get' := by
    funext bind op left right
    unfold tryComparison comparisonSides
    rw [h]
  have hinList : tryInList db get = tryInList db get' := by
    funext bind type children
    unfold tryInList
    rw [h]
  have hfunction : tryFunction db get = tryFunction db get' := by
    funext bind fname children negated
    unfold tryFunction
    rw [h]
  have hfilter : tryFilter db get = tryFilter db get' := by
    funext bind e
    unfold tryFilter
    rw [hcomparison, hinList, hfunction]
  funext bind filters
  unfold pushdownComplexFilter pushFilter
  rw [hfilter]

theorem plain_congr (h : resolveColumnName get = resolveColumnName get') {labels : List Str}
    {e : Expression} (hplain : Plain db get labels e) : Plain db get' labels e := by
  unfold Plain PlainLabel PlainMembers PlainLine at *
  rw [← h]
  exact hplain

theorem tryFunction_unlined (h : ∀ e, resolveColumnName get e ≠ some "line".toList)
    (bind : ScanBindData) (fname : Str) (children : List Expression) (negated : Bool) :
    tryFunction db get bind fname children negated = (bind, false) := by
  rcases tryFunction_cases db get bind fname children negated with
    hnothing | ⟨column, _, _, _, _, _, hcol, _⟩
  · exact hnothing
  · exact absurd hcol (h column)

theorem tryFilter_unlined (h : ∀ e, resolveColumnName get e ≠ some "line".toList)
    (bind : ScanBindData) (e : Expression) :
    (tryFilter db get bind e).1.pushedLineFilters = bind.pushedLineFilters := by
  fun_cases tryFilter db get bind e with
  | case1 => rw [tryFunction_unlined h]
  | case2 type children _ =>
    rcases tryInList_cases db get bind type children with
      heq | ⟨_, _, _, _, _, _, _, _, _, _, heq⟩ <;> rw [heq]
    rfl
  | case3 op left right =>
    rcases tryComparison_cases db get bind op left right with
      heq | ⟨op', _, _, _, ⟨ns, heq⟩ | ⟨_, ⟨_, heq⟩ | ⟨_, heq⟩⟩⟩ <;> rw [heq]
    · exact (pushTimeBound_frame bind op' ns).2.1
    · rfl
    · rfl
  | case4 => rw [tryFunction_unlined h]
  | case5 => rfl

theorem pushedLineFilters_unlined (h : ∀ e, resolveColumnName get e ≠ some "line".toList)
    (bind : ScanBindData) (filters : List Expression) :
    (pushdownComplexFilter db get bind filters).1.pushedLineFilters = bind.pushedLineFilters := by
  have hfold : ∀ st : ScanBindData × List Expression,
      (filters.foldl (pushFilter db get) st).1.pushedLineFilters = st.1.pushedLineFilters := by
    induction filters with
    | nil => exact fun _ ↦ rfl
    | cons e filters ih => exact fun st ↦ (ih _).trans (tryFilter_unlined h st.1 e)
  exact hfold (bind, [])

end Resolved

section Query

variable {db : Database} {virtual : ℕ → Bool} {labels : List Str} {get : LogicalGet}
  {filters : List Expression}

def ProjectsSeries (virtual : ℕ → Bool) (labels : List Str) (columnIds : List ℕ) : Prop :=
  ∀ src ∈ columnIds, virtual src = true ↔ (seriesColumns labels).length ≤ src

theorem emitSeriesColumn_eq {src : ℕ}
    (h : virtual src = true ↔ (seriesColumns labels).length ≤ src) (m : StringMap) :
    emitSeriesColumn virtual labels m src = seriesSourceValue labels m src := by
  have hlen : (seriesColumns labels).length = labels.length + 1 := by simp [seriesColumns]
  rw [hlen] at h
  unfold emitSeriesColumn seriesSourceValue
  rcases Nat.lt_trichotomy src labels.length with hlt | heq | hgt
  · rw [if_neg (by rw [h]; omega), if_pos hlt, if_pos hlt]
    cases labels[src]? with
    | none => rfl
    | some name =>
      change labelValue m name = _
      rw [labelValue]
      rfl
  · rw [if_neg (by rw [h]; omega), if_neg (by omega), if_neg (by omega), if_pos heq]
    rfl
  · rw [if_pos (h.mpr hgt), if_neg (by omega), if_neg (by omega)]

theorem slotRow_emitSeriesRow (h : ProjectsSeries virtual labels get.columnIds) (m : StringMap) :
    slotRow (emitSeriesRow virtual labels get.columnIds m) = get.seriesRow labels m := by
  funext i
  unfold slotRow emitSeriesRow LogicalGet.seriesRow
  rw [List.getElem?_map]
  cases hsrc : get.columnIds[i]? with
  | none => rfl
  | some src => exact emitSeriesColumn_eq (h src (List.mem_of_getElem? hsrc)) m

def satisfiesSeries (db : Database) (get : LogicalGet) (labels : List Str)
    (conjuncts : List Expression) (m : StringMap) : Bool :=
  conjuncts.all (fun e ↦ e.Holds db (get.seriesRow labels m))

theorem keepRows_emitSeries (h : ProjectsSeries virtual labels get.columnIds)
    (residuals : List Expression) (rows : List StringMap) :
    keepRows db residuals (rows.map (emitSeriesRow virtual labels get.columnIds)) =
      (rows.filter (satisfiesSeries db get labels residuals)).map
        (emitSeriesRow virtual labels get.columnIds) := by
  rw [keepRows, List.filter_map]
  congr 1
  apply List.filter_congr
  intro m _
  rw [Function.comp_apply, slotRow_emitSeriesRow h]
  rfl

structure SeriesQuery (db : Database) (virtual : ℕ → Bool) (labels : List Str) (get : LogicalGet)
    (filters : List Expression) : Prop where
  names : get.names = seriesNames labels
  projects : ProjectsSeries virtual labels get.columnIds
  label : HasLabelEquality db get labels filters
  plain : ∀ e ∈ filters, Plain db get labels e

variable {endpoint : Str} {auth : AuthConfig} {nowNs : ℤ} {bind : ScanBindData}

theorem SeriesQuery.unlined (h : SeriesQuery db virtual labels get filters)
    (hlabels : Promotable labels) (e : Expression) :
    resolveColumnName get e ≠ some "line".toList := by
  intro hline
  unfold resolveColumnName at hline
  cases hcol : stripCast e with
  | columnRef proj =>
    rw [hcol] at hline
    obtain ⟨src, _, hname⟩ := Option.bind_eq_some_iff.mp hline
    rw [h.names] at hname
    rcases List.mem_append.mp (List.mem_of_getElem? hname) with hmem | hmem
    · exact absurd (hlabels.unreserved _ hmem) (by decide)
    · exact absurd (List.mem_singleton.mp hmem) (by decide)
  | _ =>
    rw [hcol] at hline
    cases hline

structure SeriesPushed (db : Database) (get : LogicalGet) (labels : List Str)
    (filters residuals : List Expression) (bind pushed : ScanBindData) : Prop where
  frame : pushed = { bind with
    pushedMatchers := pushed.pushedMatchers
    pushedStartNs := pushed.pushedStartNs
    pushedEndNs := pushed.pushedEndNs }
  matchers : pushed.pushedMatchers ≠ []
  valid : ∀ m ∈ pushed.pushedMatchers, isValidLabelName m.label = true
  exact : ∀ m, satisfiesSeries db get labels filters m =
    (satisfiesSeries db get labels residuals m &&
      pushed.pushedMatchers.all (fun x ↦ x.accepts db.regex m))

theorem SeriesQuery.pushed (h : SeriesQuery db virtual labels get filters)
    (hlabels : Promotable labels) (hbind : seriesTableBind endpoint auth labels nowNs = some bind)
    (hdb : db.Lawful) :
    SeriesPushed db get labels filters (pushdownComplexFilter db get bind filters).2 bind
      (pushdownComplexFilter db get bind filters).1 := by
  have hresolve : resolveColumnName get = resolveColumnName (get.ofLogs labels) :=
    (resolveColumnName_ofLogs h.names).symm
  have hplanned : Planned (get.ofLogs labels) labels := ⟨rfl, hlabels.unreserved⟩
  have hattached := attachedScan_series hbind
  have hlines : (pushdownComplexFilter db get bind filters).1.pushedLineFilters = [] := by
    rw [pushedLineFilters_unlined (h.unlined hlabels)]
    obtain ⟨_, _, rfl⟩ := Option.map_eq_some_iff.mp hbind
    rfl
  have hnone : bind.pushedLineFilters = [] := by
    rw [← pushedLineFilters_unlined (h.unlined hlabels), hlines]
  have honto : PushedOnto bind (pushdownComplexFilter db get bind filters).1 :=
    pushedOnto_foldl db get filters (bind, [])
  have hcongr : pushdownComplexFilter db get = pushdownComplexFilter db (get.ofLogs labels) :=
    pushdownComplexFilter_congr hresolve
  refine ⟨?_, ?_, ?_, ?_⟩
  · rw [honto.frame] at hlines ⊢
    dsimp only at hlines ⊢
    rw [hlines, ← hnone]
  · obtain ⟨flipped, column, constant, name, v, hmem, hcol, hl, hv⟩ := h.label
    rw [hcongr]
    exact foldl_pushFilter_matcher hplanned ⟨flipped, column, constant, name, v, hmem,
      hresolve ▸ hcol, hl, hv⟩ (bind, []) hattached.labelColumns
  · exact (hattached.pushed hlabels.valid).2.2.2
  · intro m
    have hexact := foldl_pushFilter_exact hdb hplanned
      (fun e he ↦ plain_congr hresolve (h.plain e he)) (bind, []) hattached.labelColumns
      (seriesEntry m)
    have hfold : filters.foldl (pushFilter db (get.ofLogs labels)) (bind, []) =
        pushdownComplexFilter db get bind filters := by rw [hcongr]; rfl
    rw [row_ofLogs, hfold] at hexact
    unfold ScanBindData.Accepts at hexact
    rw [hlines] at hexact
    rw [Bool.eq_iff_iff, Bool.and_eq_true, and_comm]
    simp only [satisfiesSeries, List.all_eq_true, decide_eq_true_eq]
    simpa [seriesEntry, hattached.matchers, hnone] using hexact.symm

end Query

section Server

/-- The series of a tenant in a window, of which Loki lists those that a
selector asks for. -/
def Directory.ServesSeries (directory : Directory) (engine : Regex.Engine)
    (series : List Str → Option ℤ → Option ℤ → List StringMap) : Prop :=
  ∀ values q ms fs, q.kind = .series → readSelection q.argument = some (ms, fs) →
    directory.content values q = ((series values q.startNs q.endNs).filter
      (fun m ↦ ms.all (fun x ↦ x.accepts engine m))).map .labels

variable {directory : Directory} {engine : Regex.Engine}
  {series : List Str → Option ℤ → Option ℤ → List StringMap} {read : Str → Option Json}
  {client : ℕ → ClientRequest → Except Str (ℤ × Str)}

theorem parseSeriesResponse_of_parseDiscovery {body : Str} {rows : List StringMap}
    (h : parseDiscovery read .series body = .ok (rows.map .labels)) :
    parseSeriesResponse read body = .ok rows := by
  have hinj : Function.Injective DiscoveryRow.labels := fun _ _ heq ↦ DiscoveryRow.labels.inj heq
  cases hparse : parseSeriesResponse read body with
  | error message =>
    rw [parseDiscovery, hparse] at h
    cases h
  | ok rows' =>
    rw [parseDiscovery, hparse] at h
    rw [List.map_injective_iff.mpr hinj (Except.ok.inj h)]

def SeriesPushed.state (pushed : ScanBindData) (columnIds : List ℕ) : SeriesScanGlobalState where
  endpoint := pushed.endpoint
  headers := buildAuthHeaders pushed.auth
  request := buildSeriesRequest (buildSelectorQuery [] pushed.pushedMatchers []) pushed.startNs
    pushed.endNs
  columnIds := columnIds

variable {db : Database} {get : LogicalGet} {labels : List Str} {virtual : ℕ → Bool}
  {filters residuals : List Expression} {bind pushed : ScanBindData}

theorem SeriesPushed.seriesScanInitGlobal_eq
    (h : SeriesPushed db get labels filters residuals bind pushed) (hbase : bind.baseSelector = [])
    (columnIds : List ℕ) :
    seriesScanInitGlobal pushed columnIds = .ok (state pushed columnIds) := by
  have hbase' : pushed.baseSelector = [] := by
    rw [h.frame]
    exact hbase
  unfold seriesScanInitGlobal
  dsimp only
  rw [hbase', if_neg (take_buildSelectorQuery h.matchers h.valid [])]
  rfl

theorem SeriesPushed.fetchSeries_eq
    (h : SeriesPushed db get labels filters residuals bind pushed)
    (hendpoint : endpointProblem pushed.endpoint = [])
    (hbytes : IsBytes (buildSelectorQuery [] pushed.pushedMatchers []))
    (hserver : directory.Answers read client) (hseries : directory.ServesSeries engine series)
    (maxRows : ℕ) (columnIds : List ℕ) :
    let selected := (series (scopeOrgIds (buildAuthHeaders pushed.auth))
      (sentBound pushed.startNs) (sentBound pushed.endNs)).filter
        (fun m ↦ pushed.pushedMatchers.all (fun x ↦ x.accepts engine m))
    fetchSeries read (fun n call ↦ httpGet (client n) call) maxRows pushed
        (state pushed columnIds) [] =
      if maxRows < selected.length then
        .error (tooManySeries pushed.fnName selected.length maxRows)
      else .ok ([(state pushed columnIds).call], selected) := by
  intro selected
  have husable : endpointProblem (state pushed columnIds).call.endpoint = [] := hendpoint
  have hrequest : (state pushed columnIds).call.request = discoveryRequest .series
      (buildSelectorQuery [] pushed.pushedMatchers []) [] pushed.startNs pushed.endNs := rfl
  obtain ⟨body, hbody, hparse⟩ :=
    hserver.body hbytes (List.forall_mem_nil _) husable hrequest pushed.fnName 0
  rw [hseries _ _ _ _ rfl (readSelection_build h.valid [])] at hparse
  have hrows := parseSeriesResponse_of_parseDiscovery hparse
  unfold fetchSeries
  rw [List.length_nil, hbody]
  dsimp only
  rw [hrows]
  rfl

end Server

section Isolation

variable {m : SecretManager} {server : ℕ → HttpCall → HttpResponse} {store : List Secret}
  {path : Str} {options : AttachOptions} {c : LokiCatalog} {s₀ s : CatalogState}
  {tr : CatalogTrace} {startNs nowNs : ℤ} {snapshot : LokiCatalogSnapshot} {tenantId : Str}
  {ifNotFound : OnEntryNotFound} {schema : LokiSchemaEntry} {db : Database} {virtual : ℕ → Bool}
  {get : LogicalGet} {filters : List Expression} {directory : Directory}
  {series : List Str → Option ℤ → Option ℤ → List StringMap}
  {client : ℕ → ClientRequest → Except Str (ℤ × Str)} {bind : ScanBindData} {width : ℕ}

/-- In every state of an attached catalog, a query on the series of a tenant asks
for that tenant alone and once at most. Where Loki selects more series than the
cap, the first call is refused; else what is left of the chunks once the stream
has ended are the series of the tenant that satisfy the query. -/
theorem series_query
    (hattach : (lokiAttach c.read server m store path options).run = some (.ok c.config))
    (htenant : tenantId ∈ parseStringListOption options.tenants)
    (hfirst : (parseStringListOption options.tenants).find? (fun t ↦ ciEquals t tenantId) =
      some tenantId) (hnone : tenantId = [] → c.config.auth.tenant = [])
    (h₀ : c.initializeState startNs = some s₀) (hrun : Machines.Run c.step s₀ tr s)
    (hsnapshot : snapshot ∈ s.heap)
    (hlookup : lookupSchema c.name snapshot tenantId ifNotFound = .ok (some schema))
    (hbind : schema.seriesTable.getScanFunction nowNs = some bind)
    (hquery : SeriesQuery db virtual bind.labelColumns get filters) (hdb : db.Lawful)
    (hbytes : IsBytes (buildSelectorQuery []
      (pushdownComplexFilter db get bind filters).1.pushedMatchers []))
    (hendpoint : endpointProblem c.config.endpoint = [])
    (hserver : directory.Answers c.read client) (hseries : directory.ServesSeries db.regex series)
    (hwidth : 0 < width) :
    let pushed := (pushdownComplexFilter db get bind filters).1
    let residuals := (pushdownComplexFilter db get bind filters).2
    let listed := series (tenantValues c.config.auth tenantId) (sentBound bind.startNs)
      (sentBound bind.endNs)
    let selected := listed.filter
      (fun labels ↦ pushed.pushedMatchers.all (fun x ↦ x.accepts db.regex labels))
    let scan := fun state ↦ lokiSeriesScanFunction c.read (fun n call ↦ httpGet (client n) call)
      virtual schema.seriesTable.maxRows pushed state width
    ∃ state, seriesScanInitGlobal pushed get.columnIds = .ok state ∧
      (c.config.seriesMaxRows < selected.length → scan state { world := [] } =
        .error (tooManySeries pushed.fnName selected.length c.config.seriesMaxRows)) ∧
      ∀ calls t, Machines.Run (fun progress (_ : Unit) ↦ (scan state progress).toOption)
          { world := [] } calls t →
        (t.world.length ≤ 1 ∧ ∀ call ∈ t.world, call.endpoint = c.config.endpoint ∧
          scopeOrgIds call.headers = tenantValues c.config.auth tenantId) ∧
        (∀ x ∈ calls, x.event.length ≤ width) ∧
        (calls.flatMap Machines.Transition.event).length ≤ c.config.seriesMaxRows ∧
        (selected.length < calls.length → ∃ x ∈ calls, x.event = []) ∧
        ((∃ x ∈ calls, x.event = []) →
          keepRows db residuals (calls.flatMap Machines.Transition.event) =
            (listed.filter (satisfiesSeries db get bind.labelColumns filters)).map
              (emitSeriesRow virtual bind.labelColumns get.columnIds)) := by
  intro pushed residuals listed selected scan
  obtain ⟨tenant, rfl, hlabels, hvalues⟩ :=
    tenantSchema_eq hattach htenant hfirst hnone h₀ hrun hsnapshot hlookup
  have hbind' : seriesTableBind c.config.endpoint (tenantAuth c.config.auth tenant.tenantId)
      tenant.labelColumns nowNs = some bind := hbind
  have hcolumns : bind.labelColumns = tenant.labelColumns :=
    (attachedScan_series hbind').labelColumns
  rw [hcolumns] at hquery ⊢
  have hpushed : SeriesPushed db get tenant.labelColumns filters residuals bind pushed :=
    hquery.pushed hlabels hbind' hdb
  have hsame : pushed.endpoint = c.config.endpoint ∧
      pushed.auth = tenantAuth c.config.auth tenant.tenantId ∧ pushed.startNs = bind.startNs ∧
      pushed.endNs = bind.endNs ∧ pushed.labelColumns = tenant.labelColumns := by
    obtain ⟨hourAgo, _, hbound⟩ := Option.map_eq_some_iff.mp hbind'
    rw [hpushed.frame, ← hbound]
    exact ⟨rfl, rfl, rfl, rfl, rfl⟩
  obtain ⟨hpushedEndpoint, hauth, hstartNs, hendNs, hpushedLabels⟩ := hsame
  have hfetch := hpushed.fetchSeries_eq (hpushedEndpoint ▸ hendpoint) hbytes hserver hseries
    c.config.seriesMaxRows get.columnIds
  dsimp only at hfetch
  rw [hauth, hvalues, hstartNs, hendNs] at hfetch
  refine ⟨SeriesPushed.state pushed get.columnIds, hpushed.seriesScanInitGlobal_eq
    (attachedScan_series hbind').base get.columnIds, ?_, ?_⟩
  · intro hmany
    exact Streaming.Once.call_refused (hfetch.trans (if_pos hmany))
  · intro calls t hcalls
    obtain ⟨⟨hlength, hsent⟩, hchunks, hcap, hends, hall⟩ := series_run hfetch hwidth hcalls
    refine ⟨⟨hlength, ?_⟩, hchunks, hcap, hends, ?_⟩
    · intro call hcall
      have hheaders : call.headers = buildAuthHeaders pushed.auth := by
        rw [hsent call hcall]
        rfl
      rw [hheaders, hauth, hsent call hcall]
      exact ⟨hpushedEndpoint, hvalues⟩
    · intro hempty
      have hids : (SeriesPushed.state pushed get.columnIds).columnIds = get.columnIds := rfl
      rw [hall hempty, hpushedLabels, hids, keepRows_emitSeries hquery.projects, List.filter_filter]
      congr 1
      exact List.filter_congr (fun labels _ ↦ (hpushed.exact labels).symm)

end Isolation

section Samples

def tenantSeries (values : List Str) (_ _ : Option ℤ) : List StringMap :=
  if values = ["umbrella".toList] then [(sampleChunk []).labels] else []

def selectedSeries (values : List Str) (q : DiscoveryQuery) : List StringMap :=
  match readSelection q.argument with
  | some (ms, _) => (tenantSeries values q.startNs q.endNs).filter
      (fun m ↦ ms.all (fun x ↦ x.accepts Regex.reference m))
  | none => []

theorem selectedSeries_cases (values : List Str) (q : DiscoveryQuery) :
    selectedSeries values q = [] ∨ selectedSeries values q = [(sampleChunk []).labels] := by
  unfold selectedSeries tenantSeries
  split
  · split_ifs
    · exact List.sublist_singleton.mp List.filter_sublist
    · exact Or.inl rfl
  · exact Or.inl rfl

def tenantDirectory : Directory where
  content values q := if q.kind = .series then (selectedSeries values q).map .labels else []
  fits := by
    intro values q row hrow
    split_ifs at hrow with hkind
    · rcases selectedSeries_cases values q with heq | heq
      · rw [heq] at hrow
        exact absurd hrow List.not_mem_nil
      · rw [heq] at hrow
        rw [List.mem_singleton.mp hrow]
        exact ⟨hkind, by decide⟩
    · exact absurd hrow List.not_mem_nil

def webMember : String := "\x7b\"app\":\"web\"\x7d"

def directoryRead (body : Str) : Option Json :=
  if body = seriesBody webMember then
    some (.object [("status".toList, .string "success".toList),
      ("data".toList, .array [stringObject [("app".toList, "web".toList)]])])
  else if body = seriesBody "" then
    some (.object [("status".toList, .string "success".toList), ("data".toList, .array [])])
  else appLabels.read body

def directoryClient (_ : ℕ) (request : ClientRequest) : Except Str (ℤ × Str) :=
  match DiscoveryQuery.ofTarget request.target with
  | none => .ok (400, "parse error".toList)
  | some q =>
    .ok (200, seriesBody (if tenantDirectory.content (scopeOrgIds request.headers) q = [] then ""
      else webMember))

theorem tenantDirectory_answers : tenantDirectory.Answers directoryRead directoryClient := by
  intro n request q hq
  have hclient : directoryClient n request = .ok (200, seriesBody
      (if tenantDirectory.content (scopeOrgIds request.headers) q = [] then "" else webMember)) := by
    rw [directoryClient, hq]
  have hcontent : tenantDirectory.content (scopeOrgIds request.headers) q = [] ∨
      tenantDirectory.content (scopeOrgIds request.headers) q =
        [.labels (sampleChunk []).labels] := by
    change (if q.kind = .series then _ else _) = _ ∨ (if q.kind = .series then _ else _) = _
    split_ifs
    · rcases selectedSeries_cases (scopeOrgIds request.headers) q with heq | heq
      · exact Or.inl (congrArg (List.map _) heq)
      · exact Or.inr (congrArg (List.map _) heq)
    · exact Or.inl rfl
  rcases hcontent with hcontent | hcontent
  · rw [hcontent, if_pos rfl] at hclient
    rw [hcontent]
    exact ⟨_, _, hclient, (if_neg (by decide)).trans (if_pos rfl), [], rfl, .nil⟩
  · rw [hcontent, if_neg (List.cons_ne_nil _ _)] at hclient
    rw [hcontent]
    exact ⟨_, _, hclient, if_pos rfl, _, rfl, .cons ⟨_, .refl _, rfl⟩ .nil⟩

theorem tenantDirectory_servesSeries :
    tenantDirectory.ServesSeries Regex.reference tenantSeries := by
  intro values q ms fs hkind hread
  have hselected : selectedSeries values q = (tenantSeries values q.startNs q.endNs).filter
      (fun m ↦ ms.all (fun x ↦ x.accepts Regex.reference m)) := by
    rw [selectedSeries, hread]
  change (if q.kind = .series then _ else _) = _
  rw [if_pos hkind, hselected]

def directoryCatalog : LokiCatalog :=
  { attachedTenants ["acme", "umbrella"] with read := directoryRead }

def seriesGet : LogicalGet := ⟨[0, 1], seriesNames ["app".toList]⟩

def seriesBind : ScanBindData where
  pushdownMode := true
  endpoint := "http://loki:3100".toList
  auth := ⟨[], [], [], "umbrella".toList, []⟩
  labelColumns := ["app".toList]
  fnName := "loki series".toList
  endNs := 0
  startNs := -nanosPerHour

theorem seriesGet_query : SeriesQuery .reference (fun src ↦ decide (2 ≤ src)) ["app".toList]
    seriesGet [labelEquals 0 "web".toList] where
  names := rfl
  projects := by unfold ProjectsSeries; decide
  label := ⟨false, .columnRef 0, .constant (.varchar "web".toList), "app".toList,
    .varchar "web".toList, List.mem_cons_self, rfl, List.mem_cons_self,
    evalConstant_constant (by simp)⟩
  plain := List.forall_mem_singleton.mpr (plain_labelEquals (by decide))

theorem series_query_umbrella :
    let pushed := (pushdownComplexFilter .reference seriesGet seriesBind
      [labelEquals 0 "web".toList]).1
    ∃ calls t, Machines.Run (seriesCall directoryRead
        (fun n call ↦ httpGet (directoryClient n) call) (fun src ↦ decide (2 ≤ src)) 100000 pushed
        (SeriesPushed.state pushed seriesGet.columnIds) 2) { world := [] } calls t ∧
      (∃ x ∈ calls, x.event = []) ∧
      keepRows .reference (pushdownComplexFilter .reference seriesGet seriesBind
          [labelEquals 0 "web".toList]).2 (calls.flatMap Machines.Transition.event) =
        [[.varchar "web".toList, .map [("app".toList, "web".toList)]]] := by
  intro pushed
  have hattach : (lokiAttach directoryCatalog.read (fun _ _ ↦ labelsResponse) .reference [] []
      (tenantsOption ["acme", "umbrella"])).run = some (.ok directoryCatalog.config) := by
    decide +kernel
  have htenant : "umbrella".toList ∈
      parseStringListOption (tenantsOption ["acme", "umbrella"]).tenants := by decide
  have hsome : (directoryCatalog.initializeState 0).isSome = true := by decide +kernel
  obtain ⟨s₀, hs₀⟩ := Option.isSome_iff_exists.mp hsome
  obtain ⟨snapshot, hbuild, heq⟩ := initializeState_eq hs₀
  have hsnapshot : snapshot ∈ s₀.heap := by
    rw [heq]
    exact List.mem_singleton_self snapshot
  have hlookup : lookupSchema directoryCatalog.name snapshot "umbrella".toList .returnNull =
      .ok (some (schemaOf directoryCatalog.config
        ⟨"umbrella".toList, "umbrella".toList, ["app".toList]⟩)) := by
    rw [eq_snapshotOf hbuild]
    rfl
  have hbind : (schemaOf directoryCatalog.config
      ⟨"umbrella".toList, "umbrella".toList, ["app".toList]⟩).seriesTable.getScanFunction 0 =
        some seriesBind := by decide
  obtain ⟨state, hstate, _, hscan⟩ := series_query hattach htenant (by decide) (by decide) hs₀ .nil
    hsnapshot hlookup hbind seriesGet_query Database.reference_lawful (by decide +kernel)
    (by decide) tenantDirectory_answers tenantDirectory_servesSeries Nat.two_pos
  have hstart : seriesScanInitGlobal pushed seriesGet.columnIds =
      .ok (SeriesPushed.state pushed seriesGet.columnIds) := by rfl
  obtain rfl := Except.ok.inj (hstate.symm.trans hstart)
  have hexec : (Machines.exec (seriesCall directoryRead
      (fun n call ↦ httpGet (directoryClient n) call) (fun src ↦ decide (2 ≤ src)) 100000 pushed
      (SeriesPushed.state pushed seriesGet.columnIds) 2) { world := [] } [(), ()]).any
        (fun x ↦ decide (∃ call ∈ x.1, call.event = [])) = true := by decide +kernel
  obtain ⟨⟨calls, t⟩, hcalls, hempty⟩ := (Option.any_eq_true _ _).mp hexec
  have hrun := Machines.exec_run hcalls
  obtain ⟨_, _, _, _, hrows⟩ := hscan calls t hrun
  refine ⟨calls, t, hrun, of_decide_eq_true hempty, (hrows (of_decide_eq_true hempty)).trans ?_⟩
  decide +kernel

end Samples

end DuckdbLoki
