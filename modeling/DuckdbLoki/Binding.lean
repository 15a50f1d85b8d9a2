import DuckdbLoki.Pushdown
import DuckdbLoki.ScanSafety
import DuckdbLoki.TimeBounds

namespace DuckdbLoki

section Bind

/-- The named parameters of the two functions; one that is absent or `NULL` has
no value. A limit is a `BIGINT`. -/
structure ScanParams where
  connection : ConnectionOptions := {}
  limit : Option {limit : ℤ // InInt64 limit} := none
  direction : Option Str := none
  start : Option TimeArgument := none
  stop : Option TimeArgument := none
  labels : Option (List (Option Str)) := none

def resolveLimit (fn : Str) (limit : ℤ) :
    Option {limit : ℤ // InInt64 limit} → Except Str ℤ
  | none => .ok limit
  | some given =>
    if given.val ≤ 0 then .error (fn ++ " 'limit' must be a positive integer".toList)
    else .ok given.val

def resolveDirection (fn direction : Str) : Option Str → Except Str Str
  | none => .ok direction
  | some given =>
    if lower given ≠ "backward".toList ∧ lower given ≠ "forward".toList then
      .error (fn ++ " 'direction' must be 'backward' or 'forward'".toList)
    else .ok (lower given)

def resolveBound (nowNs defaultNs : ℤ) : Option TimeArgument → ExceptT Str Option ℤ
  | none => pure defaultNs
  | some given => resolveTimeBound nowNs given

variable (m : SecretManager) (store : List Secret) (params : ScanParams) (nowNs : ℤ)

/-- The default window is the hour before now; there is no result where its
start overflows. -/
def lokiResolveCommon (result : ScanBindData) (fn : Str) :
    ExceptT Str Option (ScanBindData × List ColumnType × List Str) := do
  let (endpoint, auth) ← ExceptT.mk (some (resolveLokiConnection m store params.connection fn))
  let limit ← ExceptT.mk (some (resolveLimit fn result.limit params.limit))
  let direction ← ExceptT.mk (some (resolveDirection fn result.direction params.direction))
  let hourAgo ← ExceptT.lift (checked (nowNs - nanosPerHour))
  let startNs ← resolveBound nowNs hourAgo params.start
  let endNs ← resolveBound nowNs nowNs params.stop
  let labelColumns ← ExceptT.mk (some (promoteLabels fn params.labels))
  let result := { result with
    fnName := fn
    endpoint := endpoint
    auth := auth
    limit := limit
    direction := direction
    startNs := startNs
    endNs := endNs
    hasParamStart := params.start.isSome
    hasParamEnd := params.stop.isSome
    labelColumns := labelColumns }
  return (result, declareSchema labelColumns)

def buildLogQL (rawQuery : Str) : Str := rawQuery

def lokiScanBind (query : Option Str) :
    ExceptT Str Option (ScanBindData × List ColumnType × List Str) :=
  match query with
  | none => throw "loki_scan requires a LogQL query string as its first argument".toList
  | some query =>
    lokiResolveCommon m store params nowNs { query := buildLogQL query } "loki_scan".toList

def checkSelector (selector : Str) : Except Str Unit :=
  let strayPrefix := selectorPrefixBeforeBrace selector
  if strayPrefix ≠ [] then
    .error ("loki: unexpected text '".toList ++ strayPrefix ++
      ("' before the stream selector's '\x7b' \u00e2\u0080\u0094 pass the selector on its own, " ++
        "e.g. selector := '\x7bjob=\"api\"\x7d'").toList)
  else .ok ()

def lokiBind (selector : Option Str) :
    ExceptT Str Option (ScanBindData × List ColumnType × List Str) := do
  match selector with
  | none => pure ()
  | some selector => ExceptT.mk (some (checkSelector selector))
  lokiResolveCommon m store params nowNs
    { pushdownMode := true, baseSelector := selector.getD [] } "loki".toList

end Bind

section Success

variable {m : SecretManager} {store : List Secret} {params : ScanParams} {nowNs : ℤ}
  {result bind : ScanBindData} {fn : Str} {types : List ColumnType} {names : List Str}

structure Resolved (m : SecretManager) (store : List Secret) (params : ScanParams) (nowNs : ℤ)
    (fn : Str) (result bind : ScanBindData) : Prop where
  frame : bind = { result with
    fnName := fn
    endpoint := bind.endpoint
    auth := bind.auth
    limit := bind.limit
    direction := bind.direction
    startNs := bind.startNs
    endNs := bind.endNs
    hasParamStart := params.start.isSome
    hasParamEnd := params.stop.isSome
    labelColumns := bind.labelColumns }
  connection : resolveLokiConnection m store params.connection fn = .ok (bind.endpoint, bind.auth)
  limit : resolveLimit fn result.limit params.limit = .ok bind.limit
  direction : resolveDirection fn result.direction params.direction = .ok bind.direction
  start : ∃ hourAgo, checked (nowNs - nanosPerHour) = some hourAgo ∧
    (resolveBound nowNs hourAgo params.start).run = some (.ok bind.startNs)
  stop : (resolveBound nowNs nowNs params.stop).run = some (.ok bind.endNs)
  labels : promoteLabels fn params.labels = .ok bind.labelColumns

theorem resolved_of_common
    (h : (lokiResolveCommon m store params nowNs result fn).run = some (.ok (bind, types, names))) :
    Resolved m store params nowNs fn result bind ∧
      (types, names) = declareSchema bind.labelColumns := by
  obtain ⟨⟨endpoint, auth⟩, hconnection, h⟩ := bind_eq_ok h
  obtain ⟨limit, hlimit, h⟩ := bind_eq_ok h
  obtain ⟨direction, hdirection, h⟩ := bind_eq_ok h
  obtain ⟨hourAgo, hhour, h⟩ := bind_eq_ok h
  obtain ⟨startNs, hstart, h⟩ := bind_eq_ok h
  obtain ⟨endNs, hend, h⟩ := bind_eq_ok h
  obtain ⟨labelColumns, hlabels, h⟩ := bind_eq_ok h
  obtain ⟨hbind, hschema⟩ := Prod.mk.inj (Except.ok.inj (Option.some.inj h))
  have hnow : checked (nowNs - nanosPerHour) = some hourAgo := by
    obtain ⟨x, hx, heq⟩ := Option.map_eq_some_iff.mp hhour
    rw [hx, Except.ok.inj heq]
  replace hconnection := Option.some.inj hconnection
  replace hlimit := Option.some.inj hlimit
  replace hdirection := Option.some.inj hdirection
  replace hlabels := Option.some.inj hlabels
  rw [← hbind]
  exact ⟨⟨rfl, hconnection, hlimit, hdirection, ⟨hourAgo, hnow, hstart⟩, hend, hlabels⟩,
    hschema.symm⟩

theorem resolveLimit_eq_ok {limit limit' : ℤ} {given : Option {limit : ℤ // InInt64 limit}}
    (h : resolveLimit fn limit given = .ok limit') :
    limit' = (given.map Subtype.val).getD limit ∧ ∀ l, given = some l → 1 ≤ l.val := by
  unfold resolveLimit at h
  cases given with
  | none => exact ⟨(Except.ok.inj h).symm, fun _ hl ↦ nomatch hl⟩
  | some given =>
    dsimp only at h
    split_ifs at h with hpos
    refine ⟨(Except.ok.inj h).symm, fun l hl ↦ ?_⟩
    rw [← Option.some.inj hl]
    omega

theorem resolveDirection_eq_ok {direction direction' : Str} {given : Option Str}
    (h : resolveDirection fn direction given = .ok direction') :
    direction' = (given.map lower).getD direction ∧
      ∀ d, given = some d → lower d = "backward".toList ∨ lower d = "forward".toList := by
  unfold resolveDirection at h
  cases given with
  | none => exact ⟨(Except.ok.inj h).symm, fun _ hd ↦ nomatch hd⟩
  | some given =>
    dsimp only at h
    split_ifs at h with hknown
    refine ⟨(Except.ok.inj h).symm, fun d hd ↦ ?_⟩
    rw [← Option.some.inj hd]
    by_contra hneither
    exact hknown (not_or.mp hneither)

theorem resolved_of_lokiScanBind {query : Option Str}
    (h : (lokiScanBind m store params nowNs query).run = some (.ok (bind, types, names))) :
    ∃ text, query = some text ∧
      Resolved m store params nowNs "loki_scan".toList { query := text } bind ∧
      (types, names) = declareSchema bind.labelColumns := by
  cases query with
  | none => cases h
  | some text => exact ⟨text, rfl, resolved_of_common h⟩

theorem resolved_of_lokiBind {selector : Option Str}
    (h : (lokiBind m store params nowNs selector).run = some (.ok (bind, types, names))) :
    (∀ text, selector = some text → selectorPrefixBeforeBrace text = []) ∧
      Resolved m store params nowNs "loki".toList
        { pushdownMode := true, baseSelector := selector.getD [] } bind ∧
      (types, names) = declareSchema bind.labelColumns := by
  cases selector with
  | none =>
    exact ⟨nofun, resolved_of_common h⟩
  | some text =>
    obtain ⟨_, hselector, h⟩ := bind_eq_ok h
    refine ⟨fun text' htext ↦ ?_, resolved_of_common h⟩
    rw [← Option.some.inj htext]
    have hok := Option.some.inj hselector
    unfold checkSelector at hok
    dsimp only at hok
    split_ifs at hok with hprefix
    exact not_not.mp hprefix

end Success

section Plans

variable (m : SecretManager) (store : List Secret) (params : ScanParams) (nowNs : ℤ)
  (db : Database)

/-- The scans of the two functions: `loki_scan` sends the text it is given, and
nothing is pushed to it; to `loki` any filters may be. -/
inductive Plans : Str → Str → ScanBindData → List ColumnType → List Str → Prop
  | lokiScan {text : Str} {bind : ScanBindData} {types : List ColumnType} {names : List Str}
      (h : (lokiScanBind m store params nowNs (some text)).run =
        some (.ok (bind, types, names))) :
      Plans "loki_scan".toList text bind types names
  | loki {selector : Option Str} {bind pushed : ScanBindData} {types : List ColumnType}
      {names : List Str} {get : LogicalGet} {filters residual : List Expression}
      (h : (lokiBind m store params nowNs selector).run = some (.ok (bind, types, names)))
      (hpushed : pushdownComplexFilter db get bind filters = (pushed, residual)) :
      Plans "loki".toList
        (buildSelectorQuery (selector.getD []) pushed.pushedMatchers pushed.pushedLineFilters)
        pushed types names

variable {m store params nowNs db} {fn text : Str} {pushed : ScanBindData}
  {types : List ColumnType} {names : List Str}

structure KeepsParams (m : SecretManager) (store : List Secret) (params : ScanParams) (nowNs : ℤ)
    (fn text : Str) (pushed : ScanBindData) : Prop where
  connection : resolveLokiConnection m store params.connection fn =
    .ok (pushed.endpoint, pushed.auth)
  limit : pushed.limit = (params.limit.map Subtype.val).getD 5000
  limit_pos : 1 ≤ pushed.limit
  limit_le : pushed.limit ≤ int64Max
  direction : (pushed.direction != "forward".toList) =
    decide (params.direction.map lower ≠ some "forward".toList)
  query : effectiveQuery pushed = text
  start : ∀ start, params.start = some start → ∃ startNs,
    (resolveTimeBound nowNs start).run = some (.ok startNs) ∧ startNs ≤ effectiveStart pushed
  stop : ∀ stop, params.stop = some stop → ∃ endNs,
    (resolveTimeBound nowNs stop).run = some (.ok endNs) ∧ effectiveEnd pushed ≤ endNs
  promotable : Promotable pushed.labelColumns

theorem le_effectiveStart {bind : ScanBindData} (h : bind.hasParamStart = true) :
    bind.startNs ≤ effectiveStart bind := by
  unfold effectiveStart
  rw [if_pos h]
  split_ifs
  · exact le_max_left _ _
  · exact le_rfl

theorem effectiveEnd_le {bind : ScanBindData} (h : bind.hasParamEnd = true) :
    effectiveEnd bind ≤ bind.endNs := by
  unfold effectiveEnd
  rw [if_pos h]
  split_ifs
  · exact min_le_left _ _
  · exact le_rfl

theorem Resolved.keepsParams {result bind : ScanBindData}
    (h : Resolved m store params nowNs fn result bind) (hlimit : result.limit = 5000)
    (hdirection : result.direction = "backward".toList) (honto : PushedOnto bind pushed)
    (htext : effectiveQuery pushed = text) : KeepsParams m store params nowNs fn text pushed := by
  have hsame : pushed.endpoint = bind.endpoint ∧ pushed.auth = bind.auth ∧
      pushed.limit = bind.limit ∧ pushed.direction = bind.direction ∧
      pushed.startNs = bind.startNs ∧ pushed.endNs = bind.endNs ∧
      pushed.hasParamStart = params.start.isSome ∧ pushed.hasParamEnd = params.stop.isSome := by
    rw [honto.frame, h.frame]
    exact ⟨rfl, rfl, rfl, rfl, rfl, rfl, rfl, rfl⟩
  obtain ⟨hendpoint, hauth, hlimit', hdirection', hstartNs, hendNs, hstart, hend⟩ := hsame
  obtain ⟨hlimitEq, hpos⟩ := resolveLimit_eq_ok h.limit
  rw [hlimit, ← hlimit'] at hlimitEq
  obtain ⟨hdirectionEq, hknown⟩ := resolveDirection_eq_ok h.direction
  rw [hdirection, ← hdirection'] at hdirectionEq
  refine ⟨?_, hlimitEq, ?_, ?_, ?_, htext, ?_, ?_, ?_⟩
  · rw [hendpoint, hauth]
    exact h.connection
  · rw [hlimitEq]
    cases hgiven : params.limit with
    | none => decide
    | some given => exact hpos given hgiven
  · rw [hlimitEq]
    cases params.limit with
    | none => decide
    | some given => exact given.property.2
  · rw [hdirectionEq]
    cases params.direction with
    | none => decide
    | some given => simp [bne, beq_eq_decide]
  · intro start hgiven
    obtain ⟨_, _, hbound⟩ := h.start
    rw [hgiven] at hbound hstart
    exact ⟨bind.startNs, hbound, hstartNs ▸ le_effectiveStart hstart⟩
  · intro stop hgiven
    have hbound := h.stop
    rw [hgiven] at hbound hend
    exact ⟨bind.endNs, hbound, hendNs ▸ effectiveEnd_le hend⟩
  · rw [honto.labelColumns]
    exact promoteLabels_promotable h.labels

theorem Plans.keepsParams (h : Plans m store params nowNs db fn text pushed types names) :
    KeepsParams m store params nowNs fn text pushed ∧
      (types, names) = declareSchema pushed.labelColumns := by
  cases h with
  | lokiScan h =>
    obtain ⟨_, hquery, hresolved, hschema⟩ := resolved_of_lokiScanBind h
    refine ⟨hresolved.keepsParams rfl rfl (.refl _) ?_, hschema⟩
    rw [hresolved.frame, Option.some.inj hquery]
    rfl
  | @loki selector bind _ _ _ get filters _ h hpushed =>
    obtain ⟨_, hresolved, hschema⟩ := resolved_of_lokiBind h
    have honto : PushedOnto bind pushed := by
      have := pushedOnto_foldl db get filters (bind, [])
      rwa [← pushdownComplexFilter, hpushed] at this
    refine ⟨hresolved.keepsParams rfl rfl honto ?_, ?_⟩
    · have hmode : pushed.pushdownMode = true ∧ pushed.baseSelector = selector.getD [] := by
        rw [honto.frame, hresolved.frame]
        exact ⟨rfl, rfl⟩
      rw [effectiveQuery, if_pos hmode.1, hmode.2]
    · rw [honto.labelColumns]
      exact hschema

end Plans

section Safety

variable {m : SecretManager} {store : List Secret} {params : ScanParams} {nowNs : ℤ}
  {db : Database} {fn text : Str} {pushed : ScanBindData} {types : List ColumnType}
  {names : List Str} {read : Str → Option Json} {server : ℕ → HttpCall → HttpResponse}
  {virtual : ℕ → Bool} {width : ℕ} {columnIds : List ℕ} {state : ScanGlobalState}
  {reader : Streaming.Reader PageSource LokiRow}
  {calls : List (Machines.Transition (Streaming.Reader PageSource LokiRow) ℕ (List (List Value)))}

/-- What the named parameters of a scan promise, whatever the server answers: no
more rows and no more requests than the limit, and requests of the connection,
the direction and the bounds that were given, also in a call that raises an error. -/
theorem bound_scan_safe (hplan : Plans m store params nowNs db fn text pushed types names)
    (hstart : scanInitGlobal pushed columnIds = .ok state)
    (hrun : Machines.Run (scanCall read server virtual width pushed state) state.reader calls
      reader) :
    let limit := (params.limit.map Subtype.val).getD 5000
    ((Streaming.Source.handedOut calls).length : ℤ) ≤ limit ∧
      (∀ x ∈ calls, x.event.length ≤ width) ∧
      (∃ columns, buildLokiLogsColumns pushed.labelColumns [] = .ok columns ∧
        types = columns.map ColumnDefinition.type ∧ names = columns.map ColumnDefinition.name ∧
        (∀ row ∈ Streaming.Source.handedOut calls, row.length = columnIds.length)) ∧
      ∀ fuel, let requests := reader.source.sent ++
          scanRequests read server virtual width pushed state reader fuel
        (∀ next chunk, scanCall read server virtual width pushed state reader fuel =
          some (next, chunk) → next.source.sent = requests) ∧
        (requests.length : ℤ) ≤ limit ∧ requests.Nodup ∧
        ∀ call ∈ requests,
          (∃ auth, resolveLokiConnection m store params.connection fn =
              .ok (call.endpoint, auth) ∧
            call.headers = buildAuthHeaders auth ++
              [("X-Loki-Response-Encoding-Flags".toList, "categorize-labels".toList)]) ∧
          ∃ q, RangeQuery.ofRequest call.request = some q ∧ q.query = text ∧
            (∀ start, params.start = some start → ∃ startNs,
              (resolveTimeBound nowNs start).run = some (.ok startNs) ∧ startNs ≤ q.startNs) ∧
            (∀ stop, params.stop = some stop → ∃ endNs,
              (resolveTimeBound nowNs stop).run = some (.ok endNs) ∧ q.endNs ≤ endNs) ∧
            1 ≤ q.limit ∧ q.limit ≤ 5000 ∧
            q.backward = decide (params.direction.map lower ≠ some "forward".toList) := by
  intro limit
  obtain ⟨hkeeps, hschema⟩ := hplan.keepsParams
  obtain ⟨hrows, hshape, hchunks, hrequests⟩ :=
    scan_safe hkeeps.limit_pos hkeeps.limit_le hstart hrun
  have hlimit : pushed.limit = limit := hkeeps.limit
  rw [hlimit] at hrows hrequests
  obtain ⟨htypes, hnames⟩ := Prod.mk.inj hschema
  refine ⟨hrows, hchunks, ⟨logsColumns pushed.labelColumns,
    hkeeps.promotable.buildLokiLogsColumns, ?_, ?_, hshape⟩, ?_⟩
  · rw [logsColumns_types]
    exact htypes
  · rw [logsColumns_names]
    exact hnames
  · intro fuel requests
    obtain ⟨hcount, hnodup, hcalls⟩ := hrequests fuel
    refine ⟨fun _ _ hcall ↦ sent_of_scanCall hcall, hcount, hnodup, ?_⟩
    intro call hcall
    obtain ⟨hendpoint, hheaders, q, hread, hquery, hstartNs, hendNs, hone, hcap, hbackward⟩ :=
      hcalls call hcall
    refine ⟨⟨pushed.auth, hendpoint ▸ hkeeps.connection, hheaders⟩, q, hread,
      hquery.trans hkeeps.query, ?_, ?_, hone, hcap, hbackward.trans hkeeps.direction⟩
    · intro start hgiven
      obtain ⟨startNs, hbound, hle⟩ := hkeeps.start start hgiven
      exact ⟨startNs, hbound, hle.trans hstartNs⟩
    · intro stop hgiven
      obtain ⟨endNs, hbound, hle⟩ := hkeeps.stop stop hgiven
      exact ⟨endNs, hbound, hendNs.trans hle⟩

def sampleParams : ScanParams where
  connection := { endpoint := some "http://loki:3100/".toList }
  limit := some ⟨3, by decide⟩
  start := some (.interval 0 0 (-1))

def sampleBind : ScanBindData where
  endpoint := "http://loki:3100".toList
  query := "\x7bapp=\"web\"\x7d".toList
  startNs := -990
  endNs := 10
  limit := 3
  labelColumns := []
  fnName := "loki_scan".toList
  hasParamStart := true

theorem sampleBind_bound :
    (lokiScanBind .reference [] sampleParams 10 (some "\x7bapp=\"web\"\x7d".toList)).run =
      some (.ok (sampleBind, declareSchema [])) := by
  decide +kernel

def failingServer (_ : ℕ) (_ : HttpCall) : HttpResponse := ⟨500, [], []⟩

set_option maxRecDepth 8000 in
/-- A page that falls short of the limit is the last, and a request that fails
is counted. -/
theorem bound_scan_safe_sample : ∃ state calls reader,
    scanInitGlobal sampleBind [1] = .ok state ∧
      Machines.Run (scanCall (sampleRead "up" "up".toList) sampleServer (fun _ ↦ false) 1
        sampleBind state) state.reader calls reader ∧
      Streaming.Source.handedOut calls = [[.varchar "up".toList]] ∧
      reader.source.sent.length = 1 ∧ (reader.source.sent ++ scanRequests
        (sampleRead "up" "up".toList) sampleServer (fun _ ↦ false) 1 sampleBind state reader 5).Nodup ∧
      let requests := scanRequests (sampleRead "up" "up".toList) failingServer (fun _ ↦ false) 1
        sampleBind state state.reader 5
      requests.length = 1 ∧ ∀ call ∈ requests,
        ∃ auth, resolveLokiConnection .reference [] sampleParams.connection "loki_scan".toList =
          .ok (call.endpoint, auth) := by
  obtain ⟨state, hstart⟩ : ∃ state, scanInitGlobal sampleBind [1] = .ok state := ⟨_, rfl⟩
  obtain ⟨calls, reader, hexec, hout, hsent⟩ : ∃ calls reader, Machines.exec (scanCall
      (sampleRead "up" "up".toList) sampleServer (fun _ ↦ false) 1 sampleBind state)
      state.reader [5, 5] = some (calls, reader) ∧
      Streaming.Source.handedOut calls = [[.varchar "up".toList]] ∧
      reader.source.sent.length = 1 := by
    rw [← Except.ok.inj hstart]
    exact ⟨_, _, rfl, rfl, rfl⟩
  have hrun := Machines.exec_run hexec
  have hplan : Plans .reference [] sampleParams 10 .reference _ _ _ _ _ :=
    .lokiScan sampleBind_bound
  obtain ⟨_, _, _, hsafe⟩ := bound_scan_safe hplan hstart hrun
  obtain ⟨_, _, hnodup, _⟩ := hsafe 5
  refine ⟨state, calls, reader, hstart, hrun, hout, hsent, hnodup, ?_, ?_⟩
  · rw [← Except.ok.inj hstart]
    rfl
  · obtain ⟨_, _, _, hfails⟩ := bound_scan_safe hplan hstart (.nil : Machines.Run (scanCall
      (sampleRead "up" "up".toList) failingServer (fun _ ↦ false) 1 sampleBind state) _ _ _)
    obtain ⟨_, _, _, hcalls⟩ := hfails 5
    intro call hcall
    obtain ⟨auth, hauth, _⟩ := (hcalls call (List.mem_append_right _ hcall)).1
    exact ⟨auth, hauth⟩

end Safety

end DuckdbLoki
