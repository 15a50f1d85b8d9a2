import DuckdbLoki.DiscoveryFunction
import DuckdbLoki.LokiServer

namespace DuckdbLoki

section Target

structure DiscoveryQuery where
  kind : DiscoveryKind
  argument : Str
  startNs : Option ℤ
  endNs : Option ℤ
  query : Option Str
deriving DecidableEq

def readBound : Option Str → Option (Option ℤ)
  | none => some none
  | some text => (readDecimal text).map some

def apiSegments : List Str := ["".toList, "loki".toList, "api".toList, "v1".toList]

def DiscoveryQuery.ofSegments (segments : List Str) (startNs endNs : Option ℤ)
    (params : List (Str × Str)) : Option DiscoveryQuery :=
  if segments = apiSegments ++ ["labels".toList] then
    some ⟨.labels, [], startNs, endNs, none⟩
  else if segments = apiSegments ++ ["series".toList] then
    (params.lookup "match[]".toList).map (fun selector ↦ ⟨.series, selector, startNs, endNs, none⟩)
  else if segments.take 5 = apiSegments ++ ["label".toList] ∧
      segments.drop 6 = ["values".toList] then
    segments[5]?.map (fun name ↦ ⟨.labelValues, name, startNs, endNs, params.lookup "query".toList⟩)
  else none

def DiscoveryQuery.ofTarget (target : Str) : Option DiscoveryQuery := do
  let path := target.takeWhile (· ≠ '?')
  let segments ← Percent.parsePath path
  let params ← Percent.parseQuery (target.drop (path.length + 1))
  let startNs ← readBound (params.lookup "start".toList)
  let endNs ← readBound (params.lookup "end".toList)
  ofSegments segments startNs endNs params

def discoveryRequest (kind : DiscoveryKind) (argument query : Str) (startNs endNs : ℤ) :
    QueryRangeRequest :=
  match kind with
  | .labels => buildLabelsRequest startNs endNs
  | .labelValues => buildLabelValuesRequest argument startNs endNs query
  | .series => buildSeriesRequest argument startNs endNs

def sentBound (ns : ℤ) : Option ℤ := if 0 ≤ ns then some ns else none

def askedQuery (kind : DiscoveryKind) (argument query : Str) (startNs endNs : ℤ) :
    DiscoveryQuery where
  kind := kind
  argument := if kind = .labels then [] else argument
  startNs := sentBound startNs
  endNs := sentBound endNs
  query := if kind = .labelValues ∧ query ≠ [] then some query else none

def requestTarget (request : QueryRangeRequest) : Str :=
  if buildQueryString request = [] then request.path
  else request.path ++ '?' :: buildQueryString request

variable {kind : DiscoveryKind} {argument query : Str} {startNs endNs : ℤ}

theorem readBound_toDecimal (ns : ℤ) : readBound (some (toDecimal ns)) = some (some ns) := by
  rw [readBound, readDecimal_toDecimal, Option.map_some]

theorem cut_requestTarget {request : QueryRangeRequest} (hpath : '?' ∉ request.path) :
    (requestTarget request).takeWhile (· ≠ '?') = request.path ∧
      (requestTarget request).drop (request.path.length + 1) = buildQueryString request := by
  have hplain : ∀ c ∈ request.path, decide (c ≠ '?') = true :=
    fun c hc ↦ decide_eq_true (ne_of_mem_of_not_mem hc hpath)
  unfold requestTarget
  split_ifs with hnone
  · rw [hnone]
    refine ⟨List.takeWhile_eq_self_iff.mpr hplain, ?_⟩
    exact List.drop_eq_nil_of_le (Nat.le_succ _)
  · refine ⟨?_, ?_⟩
    · apply Framing.takeWhile_append hplain
      intro c hc
      rw [← Option.some.inj hc]
      rfl
    · rw [List.append_cons]
      exact List.drop_left' List.length_append

theorem lookup_start {request : QueryRangeRequest}
    (h : request.params.lookup "start".toList = none) :
    (appendTimeBounds request startNs endNs).params.lookup "start".toList =
      (sentBound startNs).map toDecimal := by
  unfold appendTimeBounds sentBound
  rw [List.lookup_append, List.lookup_append, h]
  split_ifs <;> rfl

theorem lookup_end {request : QueryRangeRequest}
    (h : request.params.lookup "end".toList = none) :
    (appendTimeBounds request startNs endNs).params.lookup "end".toList =
      (sentBound endNs).map toDecimal := by
  unfold appendTimeBounds sentBound
  rw [List.lookup_append, List.lookup_append, h]
  split_ifs <;> rfl

theorem lookup_other {name : Str} (hstart : name ≠ "start".toList) (hend : name ≠ "end".toList)
    (request : QueryRangeRequest) :
    (appendTimeBounds request startNs endNs).params.lookup name = request.params.lookup name := by
  have hstart' : (name == "start".toList) = false := beq_eq_false_iff_ne.mpr hstart
  have hend' : (name == "end".toList) = false := beq_eq_false_iff_ne.mpr hend
  unfold appendTimeBounds
  rw [List.lookup_append, List.lookup_append]
  cases request.params.lookup name <;> split_ifs <;>
    simp only [List.lookup_cons, List.lookup_nil, hstart', hend', Option.or_none]

theorem ofTarget_requestTarget {request : QueryRangeRequest} (hpath : '?' ∉ request.path)
    (hparams : ∀ param ∈ request.params, IsBytes param.1 ∧ IsBytes param.2) {segments : List Str}
    (hsegments : Percent.parsePath request.path = some segments)
    (hstart : request.params.lookup "start".toList = (sentBound startNs).map toDecimal)
    (hend : request.params.lookup "end".toList = (sentBound endNs).map toDecimal) :
    DiscoveryQuery.ofTarget (requestTarget request) =
      DiscoveryQuery.ofSegments segments (sentBound startNs) (sentBound endNs) request.params := by
  have hbound : ∀ bound : Option ℤ, readBound (bound.map toDecimal) = some bound := by
    intro bound
    cases bound with
    | none => rfl
    | some ns => exact readBound_toDecimal ns
  obtain ⟨hcut, hrest⟩ := cut_requestTarget hpath
  unfold DiscoveryQuery.ofTarget
  dsimp only
  rw [hcut, hrest, hsegments, parseQuery_buildQueryString hparams]
  dsimp only [Option.bind_eq_bind, Option.bind_some]
  rw [hstart, hend, hbound, hbound]
  rfl

theorem appendTimeBounds_bytes {request : QueryRangeRequest}
    (h : ∀ param ∈ request.params, IsBytes param.1 ∧ IsBytes param.2) :
    ∀ param ∈ (appendTimeBounds request startNs endNs).params,
      IsBytes param.1 ∧ IsBytes param.2 := by
  have hbound : ∀ (name : Str) (ns : ℤ), IsBytes name →
      ∀ param ∈ (if ns ≥ 0 then [(name, toDecimal ns)] else []),
        IsBytes param.1 ∧ IsBytes param.2 := by
    intro name ns hname
    split_ifs
    · exact List.forall_mem_singleton.mpr ⟨hname, isBytes_toDecimal ns⟩
    · exact nofun
  exact List.forall_mem_append.mpr ⟨List.forall_mem_append.mpr
    ⟨h, hbound _ _ (by decide)⟩, hbound _ _ (by decide)⟩

theorem questionMark_notMem_urlEncode {name : Str} (hname : IsBytes name) :
    '?' ∉ urlEncode name :=
  (urlEncode_encoded hname).notMem (by decide) (by decide) (by decide)

theorem parsePath_endpoint {name : Str} (hname : IsBytes name) {path : Str}
    (h : path = ['/'].intercalate ((apiSegments ++ [name]).map urlEncode)) :
    Percent.parsePath path = some (apiSegments ++ [name]) := by
  rw [h]
  apply parsePath_intercalate (List.append_ne_nil_of_right_ne_nil _ (List.cons_ne_nil _ _))
  have hfixed : ∀ segment ∈ apiSegments, IsBytes segment := by decide
  exact List.forall_mem_append.mpr ⟨hfixed, List.forall_mem_singleton.mpr hname⟩

theorem buildLabelValuesRequest_eq (name query : Str) :
    buildLabelValuesRequest name startNs endNs query =
      ⟨"/loki/api/v1/label/".toList ++ urlEncode name ++ "/values".toList,
        (appendTimeBounds ⟨[], []⟩ startNs endNs).params ++
          if query = [] then [] else [("query".toList, query)]⟩ := by
  unfold buildLabelValuesRequest
  dsimp only
  split_ifs
  · rw [List.append_nil]
    rfl
  · rfl

theorem questionMark_notMem_labelValues {name : Str} (hname : IsBytes name) :
    '?' ∉ "/loki/api/v1/label/".toList ++ urlEncode name ++ "/values".toList := by
  intro hmem
  rcases List.mem_append.mp hmem with hmem | hmem
  · rcases List.mem_append.mp hmem with hmem | hmem
    · exact absurd hmem (by decide)
    · exact questionMark_notMem_urlEncode hname hmem
  · exact absurd hmem (by decide)

theorem labelValues_bytes (hquery : IsBytes query) :
    ∀ param ∈ (appendTimeBounds ⟨[], []⟩ startNs endNs).params ++
      (if query = [] then [] else [("query".toList, query)]), IsBytes param.1 ∧ IsBytes param.2 := by
  refine List.forall_mem_append.mpr ⟨appendTimeBounds_bytes (fun _ h ↦ nomatch h), ?_⟩
  have hname : IsBytes "query".toList := by decide
  split_ifs
  · exact fun _ h ↦ nomatch h
  · exact List.forall_mem_singleton.mpr ⟨hname, hquery⟩

theorem lookup_labelValues {name : Str} (h : name ≠ "query".toList) (params : List (Str × Str)) :
    (params ++ if query = [] then [] else [("query".toList, query)]).lookup name =
      params.lookup name := by
  have hne : (name == "query".toList) = false := beq_eq_false_iff_ne.mpr h
  rw [List.lookup_append]
  split_ifs <;> simp only [List.lookup_cons, List.lookup_nil, hne, Option.or_none]

theorem ofTarget_discoveryRequest (hargument : IsBytes argument) (hquery : IsBytes query) :
    DiscoveryQuery.ofTarget (requestTarget (discoveryRequest kind argument query startNs endNs)) =
      some (askedQuery kind argument query startNs endNs) := by
  cases kind with
  | labels =>
    have hplain : '?' ∉ "/loki/api/v1/labels".toList := by decide
    have hpath : Percent.parsePath "/loki/api/v1/labels".toList =
        some (apiSegments ++ ["labels".toList]) := parsePath_endpoint (by decide) (by decide)
    have hparams : ∀ param ∈ (buildLabelsRequest startNs endNs).params,
        IsBytes param.1 ∧ IsBytes param.2 := appendTimeBounds_bytes (fun _ h ↦ nomatch h)
    rw [discoveryRequest, ofTarget_requestTarget hplain hparams hpath (lookup_start rfl)
      (lookup_end rfl)]
    exact if_pos rfl
  | series =>
    have hplain : '?' ∉ "/loki/api/v1/series".toList := by decide
    have hpath : Percent.parsePath "/loki/api/v1/series".toList =
        some (apiSegments ++ ["series".toList]) := parsePath_endpoint (by decide) (by decide)
    have hname : IsBytes "match[]".toList := by decide
    have hparams : ∀ param ∈ (buildSeriesRequest argument startNs endNs).params,
        IsBytes param.1 ∧ IsBytes param.2 :=
      appendTimeBounds_bytes (List.forall_mem_singleton.mpr ⟨hname, hargument⟩)
    have hmatch : (buildSeriesRequest argument startNs endNs).params.lookup "match[]".toList =
        some argument := lookup_other (by decide) (by decide) _
    rw [discoveryRequest, ofTarget_requestTarget hplain hparams hpath (lookup_start rfl)
      (lookup_end rfl), DiscoveryQuery.ofSegments, if_neg (by decide), if_pos rfl, hmatch]
    rfl
  | labelValues =>
    have hpath := parsePath_buildLabelValuesRequest hargument startNs endNs query
    rw [discoveryRequest]
    rw [buildLabelValuesRequest_eq] at hpath ⊢
    have hasked : ((appendTimeBounds ⟨[], []⟩ startNs endNs).params ++
        if query = [] then [] else [("query".toList, query)]).lookup "query".toList =
          if query ≠ [] then some query else none := by
      rw [List.lookup_append, lookup_other (by decide) (by decide), ite_not]
      split_ifs <;> rfl
    rw [ofTarget_requestTarget (questionMark_notMem_labelValues hargument)
      (labelValues_bytes hquery) hpath ((lookup_labelValues (by decide) _).trans (lookup_start rfl))
      ((lookup_labelValues (by decide) _).trans (lookup_end rfl)), DiscoveryQuery.ofSegments,
      if_neg (by simp [apiSegments]), if_neg (by simp [apiSegments]), if_pos ⟨rfl, rfl⟩, hasked]
    simp [askedQuery]

end Target

section Rows

/-- A row that comes back as it is from a request of this kind: no text in it holds
a NUL, at which the decoder cuts. -/
def DiscoveryRow.Fits (kind : DiscoveryKind) : DiscoveryRow → Prop
  | .text s => kind ≠ .series ∧ '\x00' ∉ s
  | .labels m => kind = .series ∧ m.NulFree

def DiscoveryRow.Renders : DiscoveryRow → Json → Prop
  | .text s, v => v = .string s
  | .labels m, v => RendersMap m v

def RendersRows (rows : List DiscoveryRow) (root : Json) : Prop :=
  ∃ elems, root.objGet "data".toList = some (.array elems) ∧
    List.Forall₂ DiscoveryRow.Renders rows elems

variable {kind : DiscoveryKind} {rows : List DiscoveryRow} {elems : List Json}

theorem filterMap_getStr (hkind : kind ≠ .series) (hfit : ∀ row ∈ rows, row.Fits kind)
    (h : List.Forall₂ DiscoveryRow.Renders rows elems) :
    (elems.filterMap Json.getStr).map .text = rows := by
  induction h with
  | nil => rfl
  | @cons row v rows elems hrow _ ih =>
    obtain ⟨hfirst, hrest⟩ := List.forall_mem_cons.mp hfit
    cases row with
    | text s =>
      have hstr : v.getStr = some s := by
        rw [show v = .string s from hrow, Json.getStr, cString_of_notMem hfirst.2]
      rw [List.filterMap_cons_some hstr, List.map_cons, ih hrest]
    | labels m => exact absurd hfirst.1 hkind

theorem map_stringMembers (hfit : ∀ row ∈ rows, row.Fits .series)
    (h : List.Forall₂ DiscoveryRow.Renders rows elems) :
    (elems.map (fun elem ↦ stringMembers (some elem))).map .labels = rows := by
  induction h with
  | nil => rfl
  | @cons row v rows elems hrow _ ih =>
    obtain ⟨hfirst, hrest⟩ := List.forall_mem_cons.mp hfit
    cases row with
    | text s => exact absurd rfl hfirst.1
    | labels m =>
      obtain ⟨ps, hperm, hv⟩ := hrow
      rw [List.map_cons, List.map_cons, hv, stringMembers_of_perm hfirst.2 hperm, ih hrest]

/-- Decoding an answer undoes encoding it. -/
theorem parseDiscovery_renders (hfit : ∀ row ∈ rows, row.Fits kind) {read : Str → Option Json}
    {body : Str} {root : Json} (hread : read body = some root) (hroot : RendersRows rows root) :
    parseDiscovery read kind body = .ok rows := by
  obtain ⟨elems, hdata, helems⟩ := hroot
  have hstrings : parseStringArrayResponse read body = .ok (elems.filterMap Json.getStr) := by
    rw [parseStringArrayResponse, hread]
    dsimp only
    rw [hdata]
  have hseries : parseSeriesResponse read body =
      .ok (elems.map (fun elem ↦ stringMembers (some elem))) := by
    rw [parseSeriesResponse, hread]
    dsimp only
    rw [hdata]
  cases kind with
  | labels =>
    rw [parseDiscovery, hstrings]
    · exact congrArg Except.ok (filterMap_getStr (by decide) hfit helems)
    · decide
  | labelValues =>
    rw [parseDiscovery, hstrings]
    · exact congrArg Except.ok (filterMap_getStr (by decide) hfit helems)
    · decide
  | series =>
    rw [parseDiscovery, hseries]
    exact congrArg Except.ok (map_stringMembers hfit helems)

end Rows

section Directory

/-- What a Loki lists for a tenant, picked by the values of `X-Scope-OrgID`. No
text in it holds a NUL. -/
structure Directory where
  content : List Str → DiscoveryQuery → List DiscoveryRow
  fits : ∀ values q, ∀ row ∈ content values q, row.Fits q.kind

/-- A server which answers every discovery request it can read with a document
of what it lists. -/
def Directory.Answers (directory : Directory) (read : Str → Option Json)
    (client : ℕ → ClientRequest → Except Str (ℤ × Str)) : Prop :=
  ∀ n request q, DiscoveryQuery.ofTarget request.target = some q →
    ∃ body root, client n request = .ok (200, body) ∧ read body = some root ∧
      RendersRows (directory.content (scopeOrgIds request.headers) q) root

variable {directory : Directory} {read : Str → Option Json}
  {client : ℕ → ClientRequest → Except Str (ℤ × Str)} {kind : DiscoveryKind}
  {argument query : Str} {startNs endNs : ℤ} {state : LokiDiscoveryGlobalState}

theorem clientRequest_eq {call : HttpCall} (h : endpointProblem call.endpoint = []) :
    clientRequest call = .ok ⟨call.endpoint, call.connectTimeoutS, call.readTimeoutS,
      call.headers, requestTarget call.request⟩ := by
  unfold clientRequest
  dsimp only
  rw [if_neg (not_not.mpr h)]
  rfl

theorem Directory.Answers.body (h : directory.Answers read client)
    (hargument : IsBytes argument) (hquery : IsBytes query)
    {call : HttpCall} (hendpoint : endpointProblem call.endpoint = [])
    (hrequest : call.request = discoveryRequest kind argument query startNs endNs) (fnName : Str)
    (n : ℕ) :
    ∃ body, responseBody fnName (httpGet (client n) call) = .ok body ∧
      parseDiscovery read kind body = .ok (directory.content (scopeOrgIds call.headers)
        (askedQuery kind argument query startNs endNs)) := by
  have htarget : DiscoveryQuery.ofTarget
      (requestTarget (discoveryRequest kind argument query startNs endNs)) = some _ :=
    ofTarget_discoveryRequest hargument hquery
  rw [← hrequest] at htarget
  obtain ⟨body, root, hanswer, hread, hroot⟩ := h n ⟨call.endpoint, call.connectTimeoutS,
    call.readTimeoutS, call.headers, requestTarget call.request⟩ _ htarget
  refine ⟨body, ?_, parseDiscovery_renders (directory.fits _ _) hread hroot⟩
  unfold httpGet
  rw [clientRequest_eq hendpoint]
  dsimp only
  rw [hanswer]
  rfl

end Directory

section Bound

variable {m : SecretManager} {store : List Secret} {input : DiscoveryInput} {nowNs : ℤ}
  {kind : DiscoveryKind} {data : LokiDiscoveryBindData} {columns : List ColumnDefinition}

def DiscoveryKind.column : DiscoveryKind → ColumnDefinition
  | .labels => labelColumn "label".toList
  | .labelValues => labelColumn "value".toList
  | .series => ⟨"labels".toList, .stringMap⟩

structure BoundRequest (m : SecretManager) (store : List Secret) (input : DiscoveryInput)
    (nowNs : ℤ) (kind : DiscoveryKind) (data : LokiDiscoveryBindData)
    (columns : List ColumnDefinition) (startNs endNs : ℤ) : Prop where
  connection : resolveLokiConnection m store input.connection kind.fn =
    .ok (data.endpoint, data.auth)
  bounds : (resolveDiscoveryBounds input nowNs).run = some (.ok (startNs, endNs))
  request : data.request =
    discoveryRequest kind (input.argument.getD []) (input.query.getD []) startNs endNs
  columns : columns = [kind.column]

theorem boundRequest_of_bind
    (h : (discoveryBind m store input nowNs kind).run = some (.ok (data, columns))) :
    ∃ startNs endNs, BoundRequest m store input nowNs kind data columns startNs endNs := by
  have hargument : ∀ {message argument : Str}, (input.argument.elim (throw message) pure :
      ExceptT Str Option Str).run = some (.ok argument) → input.argument.getD [] = argument := by
    intro message argument h
    cases hgiven : input.argument with
    | none =>
      rw [hgiven] at h
      cases h
    | some given =>
      rw [hgiven] at h
      exact Except.ok.inj (Option.some.inj h)
  cases kind with
  | labels =>
    obtain ⟨connection, hconnection, h⟩ := bind_eq_ok h
    obtain ⟨⟨startNs, endNs⟩, hbounds, h⟩ := bind_eq_ok h
    obtain ⟨hdata, hcolumns⟩ := Prod.mk.inj (Except.ok.inj (Option.some.inj h))
    rw [← hdata]
    exact ⟨startNs, endNs, Option.some.inj hconnection, hbounds, rfl, hcolumns.symm⟩
  | labelValues =>
    obtain ⟨connection, hconnection, h⟩ := bind_eq_ok h
    obtain ⟨label, hlabel, h⟩ := bind_eq_ok h
    obtain ⟨⟨startNs, endNs⟩, hbounds, h⟩ := bind_eq_ok h
    obtain ⟨hdata, hcolumns⟩ := Prod.mk.inj (Except.ok.inj (Option.some.inj h))
    rw [← hdata, ← hargument hlabel]
    exact ⟨startNs, endNs, Option.some.inj hconnection, hbounds, rfl, hcolumns.symm⟩
  | series =>
    obtain ⟨connection, hconnection, h⟩ := bind_eq_ok h
    obtain ⟨selector, hselector, h⟩ := bind_eq_ok h
    obtain ⟨⟨startNs, endNs⟩, hbounds, h⟩ := bind_eq_ok h
    obtain ⟨hdata, hcolumns⟩ := Prod.mk.inj (Except.ok.inj (Option.some.inj h))
    rw [← hdata, ← hargument hselector]
    exact ⟨startNs, endNs, Option.some.inj hconnection, hbounds, rfl, hcolumns.symm⟩

theorem sentBound_encodedBound (bound : Option ℤ) :
    sentBound (encodedBound bound) = bound.filter (0 ≤ ·) := by
  cases bound with
  | none => rfl
  | some ns =>
    unfold sentBound encodedBound
    rw [Option.getD_some]
    split_ifs with hns
    · simp [Option.filter, hns]
    · simp [Option.filter, hns]

theorem DiscoveryRow.Fits.hasType {row : DiscoveryRow} (h : row.Fits kind) :
    row.value.HasType kind.column.type := by
  cases row with
  | text s =>
    cases kind with
    | series => exact absurd rfl h.1
    | _ => exact trivial
  | labels m =>
    rw [h.1]
    exact trivial

variable {directory : Directory} {read : Str → Option Json}
  {client : ℕ → ClientRequest → Except Str (ℤ × Str)} {width : ℕ}
  {t : Streaming.Once (List HttpCall) DiscoveryRow}
  {calls : List (Machines.Transition (Streaming.Once (List HttpCall) DiscoveryRow) Unit
    (List Value))}

theorem discovery_requests
    (hrun : Machines.Run (discoveryCall read (fun n call ↦ httpGet (client n) call) kind
      (discoveryInitGlobal data) width) { world := [] } calls t) :
    t.world.length ≤ 1 ∧ ∀ call ∈ t.world, call.endpoint = data.endpoint ∧
      call.headers = buildAuthHeaders data.auth := by
  rcases discovery_sent hrun with hnone | hone
  · rw [hnone]
    exact ⟨Nat.zero_le 1, nofun⟩
  · rw [hone]
    exact ⟨Nat.le_refl 1, List.forall_mem_singleton.mpr ⟨rfl, rfl⟩⟩

theorem discovery_run {argument query : Str} {startNs endNs : ℤ}
    (hrequest : data.request = discoveryRequest kind argument query startNs endNs)
    (hargument : IsBytes argument) (hquery : IsBytes query)
    (hendpoint : endpointProblem data.endpoint = []) (hserver : directory.Answers read client)
    (hwidth : 0 < width)
    (hrun : Machines.Run (discoveryCall read (fun n call ↦ httpGet (client n) call) kind
      (discoveryInitGlobal data) width) { world := [] } calls t) :
    let rows := directory.content (tenantValues data.auth data.auth.tenant)
      (askedQuery kind argument query startNs endNs)
    let handed := calls.flatMap Machines.Transition.event
    (∀ x ∈ calls, x.event.length ≤ width) ∧ (∀ v ∈ handed, v.HasType kind.column.type) ∧
      handed = (rows.take (calls.length * width)).map DiscoveryRow.value ∧
      ((∃ x ∈ calls, x.event = []) → handed = rows.map DiscoveryRow.value) ∧
      (rows.length < calls.length → ∃ x ∈ calls, x.event = []) := by
  intro rows handed
  have husable : endpointProblem (discoveryInitGlobal data).call.endpoint = [] := hendpoint
  obtain ⟨body, hbody, hparse⟩ := hserver.body hargument hquery husable hrequest kind.fn 0
  have hvalues : scopeOrgIds (discoveryInitGlobal data).call.headers =
      tenantValues data.auth data.auth.tenant := scopeOrgIds_buildAuthHeaders data.auth
  rw [hvalues] at hparse
  have hfetch : fetchDiscovery read (fun n call ↦ httpGet (client n) call) kind
      (discoveryInitGlobal data) [] = .ok ([(discoveryInitGlobal data).call], rows) := by
    unfold fetchDiscovery
    rw [List.length_nil, hbody]
    dsimp only
    rw [hparse]
    rfl
  obtain ⟨hchunks, hhanded, hall, hends⟩ := Streaming.Once.run_chunks hwidth hfetch hrun
  refine ⟨hchunks, ?_, hhanded, hall, hends⟩
  intro v hv
  rw [show handed = _ from hhanded] at hv
  obtain ⟨row, hrow, rfl⟩ := List.mem_map.mp hv
  exact (directory.fits _ _ row (List.mem_of_mem_take hrow)).hasType

/-- What a discovery function returns: the rows that the server lists for the
connection, the argument and the bounds of the call, each of the declared type,
in order and after one request at most. A bound before the epoch is not sent. -/
theorem discovery_rows
    (hbind : (discoveryBind m store input nowNs kind).run = some (.ok (data, columns)))
    (hargument : IsBytes (input.argument.getD [])) (hquery : IsBytes (input.query.getD []))
    (hendpoint : endpointProblem data.endpoint = []) (hserver : directory.Answers read client)
    (hwidth : 0 < width)
    (hrun : Machines.Run (discoveryCall read (fun n call ↦ httpGet (client n) call) kind
      (discoveryInitGlobal data) width) { world := [] } calls t) :
    ∃ auth start stop column,
      resolveLokiConnection m store input.connection kind.fn = .ok (data.endpoint, auth) ∧
      ResolvesTo nowNs input.startBound start ∧ ResolvesTo nowNs input.endBound stop ∧
      columns = [column] ∧
      (t.world.length ≤ 1 ∧ ∀ call ∈ t.world, call.endpoint = data.endpoint ∧
        call.headers = buildAuthHeaders auth) ∧
      let rows := directory.content (tenantValues auth auth.tenant)
        { kind := kind
          argument := if kind = .labels then [] else input.argument.getD []
          startNs := start.filter (0 ≤ ·)
          endNs := stop.filter (0 ≤ ·)
          query := if kind = .labelValues ∧ input.query.getD [] ≠ [] then input.query else none }
      let handed := calls.flatMap Machines.Transition.event
      (∀ x ∈ calls, x.event.length ≤ width) ∧ (∀ v ∈ handed, v.HasType column.type) ∧
        handed = (rows.take (calls.length * width)).map DiscoveryRow.value ∧
        ((∃ x ∈ calls, x.event = []) → handed = rows.map DiscoveryRow.value) ∧
        (rows.length < calls.length → ∃ x ∈ calls, x.event = []) := by
  obtain ⟨startNs, endNs, hbound⟩ := boundRequest_of_bind hbind
  obtain ⟨start, stop, hstart, hstop, hstartNs, hendNs⟩ := exists_bounds hbound.bounds
  refine ⟨data.auth, start, stop, kind.column, hbound.connection, hstart, hstop, hbound.columns,
    discovery_requests hrun, ?_⟩
  have hasked : askedQuery kind (input.argument.getD []) (input.query.getD []) startNs endNs =
      ⟨kind, if kind = .labels then [] else input.argument.getD [], start.filter (0 ≤ ·),
        stop.filter (0 ≤ ·),
        if kind = .labelValues ∧ input.query.getD [] ≠ [] then input.query else none⟩ := by
    have hsent : (if kind = .labelValues ∧ input.query.getD [] ≠ [] then
        some (input.query.getD []) else none) =
          if kind = .labelValues ∧ input.query.getD [] ≠ [] then input.query else none := by
      cases input.query with
      | none => simp
      | some query => rfl
    rw [askedQuery, hstartNs, hendNs, sentBound_encodedBound, sentBound_encodedBound, hsent]
  rw [← hasked]
  exact discovery_run hbound.request hargument hquery hendpoint hserver hwidth hrun

def oneSeries : Directory where
  content _ q := if q.kind = .series then
    [.labels (StringMap.empty.emplace "job".toList "api".toList)] else []
  fits := by
    intro values q row hrow
    split_ifs at hrow with hkind
    · rw [List.mem_singleton.mp hrow]
      exact ⟨hkind, by decide⟩
    · exact absurd hrow List.not_mem_nil

def seriesBody (elems : String) : Str :=
  ("\x7b\"status\":\"success\",\"data\":[" ++ elems ++ "]\x7d").toList

def seriesRead (body : Str) : Option Json :=
  if body = seriesBody "\x7b\"job\":\"api\"\x7d" then
    some (.object [("status".toList, .string "success".toList),
      ("data".toList, .array [stringObject [("job".toList, "api".toList)]])])
  else some (.object [("status".toList, .string "success".toList), ("data".toList, .array [])])

def seriesClient (_ : ℕ) (request : ClientRequest) : Except Str (ℤ × Str) :=
  match DiscoveryQuery.ofTarget request.target with
  | none => .ok (400, "parse error".toList)
  | some q =>
    .ok (200, seriesBody (if q.kind = .series then "\x7b\"job\":\"api\"\x7d" else ""))

theorem oneSeries_answers : oneSeries.Answers seriesRead seriesClient := by
  intro n request q hq
  have hclient : seriesClient n request =
      .ok (200, seriesBody (if q.kind = .series then "\x7b\"job\":\"api\"\x7d" else "")) := by
    rw [seriesClient, hq]
  by_cases hkind : q.kind = .series
  · rw [if_pos hkind] at hclient
    refine ⟨_, _, hclient, if_pos rfl, [stringObject [("job".toList, "api".toList)]], rfl, ?_⟩
    have hcontent : oneSeries.content (scopeOrgIds request.headers) q =
        [.labels (StringMap.empty.emplace "job".toList "api".toList)] := if_pos hkind
    rw [hcontent]
    exact .cons ⟨_, .refl _, rfl⟩ .nil
  · rw [if_neg hkind] at hclient
    refine ⟨_, _, hclient, if_neg (by decide), [], rfl, ?_⟩
    have hcontent : oneSeries.content (scopeOrgIds request.headers) q = [] := if_neg hkind
    rw [hcontent]
    exact .nil

theorem discovery_rows_series : ∃ data columns calls t,
    (discoveryBind .reference [] seriesInput 1700000000000000000 .series).run =
      some (.ok (data, columns)) ∧
    Machines.Run (discoveryCall seriesRead (fun n call ↦ httpGet (seriesClient n) call) .series
      (discoveryInitGlobal data) 2) { world := [] } calls t ∧
    calls.flatMap Machines.Transition.event = [.map [("job".toList, "api".toList)]] ∧
    t.world.length ≤ 1 := by
  have hbind : (discoveryBind .reference [] seriesInput 1700000000000000000 .series).run =
      some (.ok (⟨"http://localhost:3100".toList, ⟨[], [], [], [], []⟩,
        buildSeriesRequest "\x7bjob=\"api\"\x7d".toList 1699996400000000000 (-1)⟩,
        [⟨"labels".toList, .stringMap⟩])) := by
    rfl
  have hexec : (Machines.exec (discoveryCall seriesRead
      (fun n call ↦ httpGet (seriesClient n) call) .series
      (discoveryInitGlobal ⟨"http://localhost:3100".toList, ⟨[], [], [], [], []⟩,
        buildSeriesRequest "\x7bjob=\"api\"\x7d".toList 1699996400000000000 (-1)⟩) 2)
      { world := [] } [(), ()]).any
        (fun x ↦ decide (∃ call ∈ x.1, call.event = [])) = true := by decide +kernel
  obtain ⟨⟨calls, t⟩, hcalls, hempty⟩ := (Option.any_eq_true _ _).mp hexec
  have hrun := Machines.exec_run hcalls
  obtain ⟨auth, start, stop, column, _, _, _, _, hsent, _, _, _, hall, _⟩ := discovery_rows hbind
    (by decide) (by decide) (by decide) oneSeries_answers Nat.two_pos hrun
  exact ⟨_, _, calls, t, hbind, hrun, hall (of_decide_eq_true hempty), hsent.1⟩

end Bound

end DuckdbLoki
