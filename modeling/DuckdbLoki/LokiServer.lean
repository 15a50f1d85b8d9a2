import DuckdbLoki.HttpClient
import DuckdbLoki.LogsTable
import DuckdbLoki.ScanFunction
import DuckdbLoki.QueryStrings
import DuckdbLoki.StreamsResponse
import DuckdbLoki.Tenants

namespace DuckdbLoki

section Target

def RangeQuery.ofTarget (target : Str) : Option RangeQuery :=
  let path := target.takeWhile (· ≠ '?')
  (Percent.parseQuery (target.drop (path.length + 1))).bind (fun params ↦ ofRequest ⟨path, params⟩)

theorem isBytes_toDecimal (x : ℤ) : IsBytes (toDecimal x) := by
  intro c hc
  rcases mem_toDecimal hc with rfl | hdigit
  · decide
  · have hle : c ≤ '9' := by
      rw [Char.isDigit, Bool.and_eq_true, decide_eq_true_iff, decide_eq_true_iff] at hdigit
      exact hdigit.2
    have hval : c.toNat ≤ '9'.toNat := hle
    exact hval.trans_lt (by decide)

theorem ofTarget_target {request : QueryRangeRequest} (hpath : '?' ∉ request.path)
    (hparams : ∀ param ∈ request.params, IsBytes param.1 ∧ IsBytes param.2) :
    RangeQuery.ofTarget (request.path ++ '?' :: buildQueryString request) =
      RangeQuery.ofRequest request := by
  have hcut : (request.path ++ '?' :: buildQueryString request).takeWhile (· ≠ '?') =
      request.path := by
    apply Framing.takeWhile_append
    · intro c hc
      exact decide_eq_true (ne_of_mem_of_not_mem hc hpath)
    · intro c hc
      rw [← Option.some.inj hc]
      rfl
  have hrest : (request.path ++ '?' :: buildQueryString request).drop (request.path.length + 1) =
      buildQueryString request := by
    rw [List.append_cons]
    exact List.drop_left' List.length_append
  unfold RangeQuery.ofTarget
  dsimp only
  rw [hcut, hrest, parseQuery_buildQueryString hparams, Option.bind_some]

variable {p : StreamPager}

theorem request_bytes (hquery : IsBytes p.logql) :
    ∀ param ∈ p.request.params, IsBytes param.1 ∧ IsBytes param.2 := by
  have hdirection : IsBytes (if p.backward then "backward".toList else "forward".toList) := by
    split_ifs <;> decide
  unfold StreamPager.request buildQueryRangeRequest
  dsimp only
  simp only [List.forall_mem_cons]
  exact ⟨⟨by decide, hquery⟩, ⟨by decide, isBytes_toDecimal _⟩, ⟨by decide, isBytes_toDecimal _⟩,
    ⟨by decide, isBytes_toDecimal _⟩, ⟨by decide, hdirection⟩, nofun⟩

def pageRequest (endpoint : Str) (headers : List (Str × Str)) (request : QueryRangeRequest) :
    ClientRequest :=
  ⟨endpoint, 10, 60, headers, request.path ++ '?' :: buildQueryString request⟩

theorem buildQueryString_ne_nil {request : QueryRangeRequest} (h : request.params ≠ []) :
    buildQueryString request ≠ [] := by
  have hsent : buildQueryString request = ['&'].intercalate (request.params.map sentParam) := rfl
  obtain ⟨param, params, hparams⟩ := List.exists_cons_of_ne_nil h
  rw [hsent, hparams, List.map_cons, ← List.append_nil (sentParam param), intercalate_append]
  exact List.append_ne_nil_of_left_ne_nil (sentParam_ne_nil param) _

theorem clientRequest_page {endpoint : Str} (hendpoint : endpointProblem endpoint = [])
    (headers : List (Str × Str)) (p : StreamPager) :
    clientRequest ⟨endpoint, p.request, headers, 10, 60⟩ =
      .ok (pageRequest endpoint headers p.request) := by
  have hne : buildQueryString p.request ≠ [] := buildQueryString_ne_nil (List.cons_ne_nil _ _)
  unfold clientRequest
  dsimp only
  rw [if_neg (not_not.mpr hendpoint), if_neg hne]
  rfl

theorem ofTarget_pageRequest (endpoint : Str) (headers : List (Str × Str))
    (hquery : IsBytes p.logql) :
    RangeQuery.ofTarget (pageRequest endpoint headers p.request).target =
      some ⟨p.logql, if p.backward then p.startNs else p.cursorNs,
        if p.backward then p.cursorNs else p.endNs, p.requested, p.backward⟩ := by
  have hpath : '?' ∉ "/loki/api/v1/query_range".toList := by decide
  rw [pageRequest, ofTarget_target hpath (request_bytes hquery)]
  exact StreamPager.ofRequest_request p

end Target

section Page

/-- An entry that comes back as it is: its timestamp fits 64 bits, and none of its
texts holds a NUL, which JSON allows and the decoder cuts at. -/
structure LokiRow.Sendable (r : LokiRow) : Prop where
  tsNs : InInt64 r.tsNs
  line : '\x00' ∉ r.line
  labels : r.labels.NulFree
  metadata : r.structuredMetadata.NulFree

theorem rows_parseChunk_renders {c : StreamChunk} (hc : ∀ r ∈ c.rows, r.Sendable) {v : Json}
    (h : RendersChunk c v) : (parseChunk v).rows = c.rows := by
  have hvalues : ∀ e ∈ c.values,
      (⟨e.tsNs, e.line, c.labels, e.structuredMetadata⟩ : LokiRow).Sendable :=
    fun e he ↦ hc _ (List.mem_map_of_mem he)
  by_cases hempty : c.values = []
  · obtain ⟨_, tuples, _, _, htuples, hforall⟩ := h
    rw [hempty, List.forall₂_nil_left_iff] at hforall
    have hnone : (parseChunk v).values = [] := by
      rw [parseChunk, valuesOf, htuples, hforall]
      rfl
    rw [StreamChunk.rows, StreamChunk.rows, hnone, hempty]
    rfl
  · obtain ⟨e, he⟩ := List.exists_mem_of_ne_nil _ hempty
    have hnul : c.NulFree :=
      ⟨(hvalues e he).labels, fun e he ↦ ⟨(hvalues e he).line, (hvalues e he).metadata⟩⟩
    rw [parseChunk_renders (fun e he ↦ (hvalues e he).tsNs) hnul h]

theorem pageRows_renders {chunks : List StreamChunk} {elems : List Json}
    (h : List.Forall₂ RendersChunk chunks elems) (hrows : ∀ r ∈ pageRows chunks, r.Sendable) :
    pageRows (elems.map parseChunk) = pageRows chunks := by
  induction h with
  | nil => rfl
  | @cons c v chunks elems hc _ ih =>
    have hsplit : ∀ r ∈ c.rows ++ pageRows chunks, r.Sendable := hrows
    obtain ⟨hfirst, hrest⟩ := List.forall_mem_append.mp hsplit
    change (parseChunk v).rows ++ pageRows (elems.map parseChunk) = c.rows ++ pageRows chunks
    rw [rows_parseChunk_renders hfirst hc, ih hrest]

theorem exists_page {chunks : List StreamChunk} (hrows : ∀ r ∈ pageRows chunks, r.Sendable)
    {read : Str → Option Json} {body : Str} {root : Json} (hread : read body = some root)
    (hroot : RendersStreams chunks root) :
    ∃ page, parseStreamsResponse read body = .ok page ∧ pageRows page = pageRows chunks := by
  obtain ⟨data, elems, hdata, htype, hresult, helems⟩ := hroot
  have hstreams : (data.objGet "resultType".toList).bind Json.getStr = some "streams".toList := by
    rw [htype]
    decide
  refine ⟨_, parseStreamsResponse_streams hread hdata hstreams, ?_⟩
  rw [resultOf, hresult]
  exact pageRows_renders helems hrows

end Page

section Server

/-- The entries a Loki holds for a tenant, picked by the values of
`X-Scope-OrgID`. No text in them holds a NUL. -/
structure TenantStores where
  store : List Str → Store
  sendable : ∀ values, ∀ r ∈ (store values).listing true, r.Sendable

/-- A server which answers every range query it can read with a document of the
entries that it selects from the store of the tenant. -/
def TenantStores.Answers (stores : TenantStores) (engine : Regex.Engine)
    (read : Str → Option Json) (client : ℕ → ClientRequest → Except Str (ℤ × Str)) : Prop :=
  ∀ n request q ms fs, RangeQuery.ofTarget request.target = some q →
    readSelection q.query = some (ms, fs) →
    ∃ body root chunks, client n request = .ok (200, body) ∧ read body = some root ∧
      RendersStreams chunks root ∧ (pageRows chunks).Perm
        (((stores.store (scopeOrgIds request.headers)).restrict (selects engine ms fs)).select q)

theorem TenantStores.sendable_of_perm (stores : TenantStores) {values : List Str}
    {keep : LokiRow → Bool} {q : RangeQuery} {rows : List LokiRow}
    (h : rows.Perm (((stores.store values).restrict keep).select q)) : ∀ r ∈ rows, r.Sendable := by
  intro r hr
  have hselected := List.mem_of_mem_take (h.mem_iff.mp hr)
  have hlisted := List.mem_of_mem_filter (List.mem_of_mem_filter hselected)
  have hperm := (stores.store values).listing_perm true q.backward
  exact stores.sendable values r (hperm.mem_iff.mpr hlisted)

variable {stores : TenantStores} {engine : Regex.Engine} {read : Str → Option Json}
  {client : ℕ → ClientRequest → Except Str (ℤ × Str)} {endpoint : Str}

/-- The request of a pager over HTTP comes back as a page of the tenant's
entries. -/
theorem TenantStores.Answers.page (h : stores.Answers engine read client)
    (hendpoint : endpointProblem endpoint = []) {p : StreamPager} (hquery : IsBytes p.logql)
    {ms : List LabelMatcher} {fs : List LineFilter} (hread : readSelection p.logql = some (ms, fs))
    (fnName : Str) (headers : List (Str × Str)) (n : ℕ) :
    ∃ page, responseBody fnName (httpGet (client n) ⟨endpoint, p.request, headers, 10, 60⟩) >>=
        parseStreamsResponse read = .ok page ∧
      (pageRows page).Perm
        (((stores.store (scopeOrgIds headers)).restrict (selects engine ms fs)).select
          ⟨p.logql, if p.backward then p.startNs else p.cursorNs,
            if p.backward then p.cursorNs else p.endNs, p.requested, p.backward⟩) := by
  obtain ⟨body, root, chunks, hanswer, hbody, hroot, hperm⟩ :=
    h n _ _ ms fs (ofTarget_pageRequest endpoint headers hquery) hread
  obtain ⟨page, hpage, hrows⟩ := exists_page (stores.sendable_of_perm hperm) hbody hroot
  refine ⟨page, ?_, hrows ▸ hperm⟩
  have hget : httpGet (client n) ⟨endpoint, p.request, headers, 10, 60⟩ = ⟨200, body, []⟩ := by
    unfold httpGet
    rw [clientRequest_page hendpoint]
    dsimp only
    rw [hanswer]
  rw [hget]
  exact hpage

end Server

end DuckdbLoki
