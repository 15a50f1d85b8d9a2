import DuckdbLoki.Paging.Pace
import DuckdbLoki.PushedBounds
import DuckdbLoki.TenantQueries

namespace DuckdbLoki

open StreamPager

section Pages

variable {stores : TenantStores} {engine : Regex.Engine} {read : Str → Option Json}
  {client : ℕ → ClientRequest → Except Str (ℤ × Str)} {ms : List LabelMatcher}
  {fs : List LineFilter}

theorem TenantStores.Answers.serves (h : stores.Answers engine read client) {endpoint : Str}
    (hendpoint : endpointProblem endpoint = []) {logql : Str} (hbytes : IsBytes logql)
    (hread : readSelection logql = some (ms, fs)) (fnName : Str) (headers : List (Str × Str)) :
    ∃ pages : ℕ → QueryRangeRequest → List StreamChunk,
      ((stores.store (scopeOrgIds headers)).restrict (selects engine ms fs)).Serves logql pages ∧
      ∀ n (p : StreamPager), p.logql = logql →
        responseBody fnName (httpGet (client n) ⟨endpoint, p.request, headers, 10, 60⟩) >>=
          parseStreamsResponse read = .ok (pages n p.request) := by
  let own := (stores.store (scopeOrgIds headers)).restrict (selects engine ms fs)
  have hpage : ∀ n request, ∃ page : List StreamChunk,
      (∀ q, RangeQuery.ofRequest request = some q → q.query = logql →
        (pageRows page).Perm (own.select q)) ∧
      ∀ p : StreamPager, p.logql = logql → p.request = request →
        responseBody fnName (httpGet (client n) ⟨endpoint, request, headers, 10, 60⟩) >>=
          parseStreamsResponse read = .ok page := by
    intro n request
    by_cases hsent : ∃ p : StreamPager, p.logql = logql ∧ p.request = request
    · obtain ⟨p, hlogql, rfl⟩ := hsent
      obtain ⟨page, hbody, hperm⟩ :=
        h.page hendpoint (p := p) (hlogql ▸ hbytes) (hlogql ▸ hread) fnName headers n
      refine ⟨page, ?_, fun _ _ _ ↦ hbody⟩
      intro q hq _
      rw [ofRequest_request] at hq
      rw [← Option.some.inj hq]
      exact hperm
    · -- no page is asked for so; any answer will do
      refine ⟨own.respond n request, own.respond_serves logql n request, ?_⟩
      exact fun p hlogql hrequest ↦ absurd ⟨p, hlogql, hrequest⟩ hsent
  choose pages hserves hanswers using hpage
  exact ⟨pages, hserves, fun n p hlogql ↦ hanswers n p.request p hlogql rfl⟩

variable {server : ℕ → HttpCall → HttpResponse} {bind : ScanBindData} {state : ScanGlobalState}

/-- The source delivers what the fetch loop returns page by page. -/
theorem delivers_of_drain {logql : Str} {pages : ℕ → QueryRangeRequest → List StreamChunk}
    (hpages : ∀ n (p : StreamPager), p.logql = logql →
      responseBody bind.fnName (server n ⟨state.endpoint, p.request, state.headers, 10, 60⟩) >>=
        parseStreamsResponse read = .ok (pages n p.request))
    {fuel : ℕ} {pager q : StreamPager} {sent : List HttpCall} {turns : List StreamPager.Turn}
    (hvalid : pager.Valid) (hlogql : pager.logql = logql)
    (hdrain : drain pages sent.length fuel pager = some (q, turns)) :
    (pageSource read server bind state).Delivers ⟨pager, sent⟩
      (turns.map StreamPager.Turn.rows) := by
  induction fuel generalizing pager sent turns with
  | zero =>
    unfold drain at hdrain
    split_ifs at hdrain with hdone
    obtain ⟨_, hturns⟩ := Prod.mk.inj (Option.some.inj hdrain)
    rw [← hturns]
    exact .done hdone
  | succ fuel ih =>
    unfold drain at hdrain
    split_ifs at hdrain with hdone
    · obtain ⟨_, hturns⟩ := Prod.mk.inj (Option.some.inj hdrain)
      rw [← hturns]
      exact .done hdone
    · have hopen : pager.done = false := Bool.eq_false_of_not_eq_true hdone
      have hnext : pager.nextRequest = some (pager.awaiting, pager.request) := nextRequest_eq hvalid
      rw [hnext] at hdrain
      dsimp only [Option.bind_eq_bind, Option.bind_some] at hdrain
      obtain ⟨⟨p', rows⟩, haccept, hdrain⟩ := Option.bind_eq_some_iff.mp hdrain
      obtain ⟨⟨q', rest⟩, hrest, hdrain⟩ := Option.bind_eq_some_iff.mp hdrain
      obtain ⟨hq, hturns⟩ := Prod.mk.inj (Option.some.inj hdrain)
      rw [← hturns]
      obtain ⟨hvalid', hsame, _⟩ := accept_counts hvalid hopen haccept
      let call : HttpCall := ⟨state.endpoint, pager.request, state.headers, 10, 60⟩
      have hlen : (sent ++ [call]).length = sent.length + 1 := List.length_append
      have hfetch : fetchPage read server bind.fnName state.endpoint state.headers ⟨pager, sent⟩ =
          some (.ok (⟨p', sent ++ [call]⟩, rows)) := by
        have hpage := hpages sent.length pager hlogql
        rw [fetchPage_valid hvalid, nextCall, hpage]
        dsimp only
        rw [haccept]
        rfl
      rw [← hlen] at hrest
      dsimp only at hq hrest
      rw [hq] at hrest
      exact .fetch hopen hfetch (ih hvalid' (hsame.logql.trans hlogql) hrest)

/-- Every turn of the fetch loop but the last brings a page less what one
nanosecond may hold. -/
theorem drain_pace {own : Store} {pager q : StreamPager} {turns : List StreamPager.Turn} {k : ℕ}
    {pages : ℕ → QueryRangeRequest → List StreamChunk} (hfresh : pager.Fresh)
    (hserves : own.Serves pager.logql pages)
    (hkeys : ((own.listing true).map LokiRow.key).Nodup) (hk : ∀ t, own.countAt t ≤ k)
    (hdrain : drain pages 0 pager.userLimit.toNat pager = some (q, turns)) :
    ∀ rows ∈ (turns.map StreamPager.Turn.rows).dropLast,
      pager.perRequestCap.toNat - k ≤ rows.length := by
  obtain ⟨q', turns', hdrain', _, _, hreads⟩ := drain_reads hfresh hserves
  obtain ⟨rfl, rfl⟩ := Prod.mk.inj (Option.some.inj (hdrain.symm.trans hdrain'))
  have hcount : ∀ r, pager.plan.count (target own pager) r ≤ k := by
    intro r
    rw [count_target]
    exact (own.count_window_le _ _ _ _).trans (hk _)
  have hpace := hreads.pace (Store.keys_window_nodup hkeys _ _ _) (target_sorted own pager)
    pager.plan_ranked hfresh.valid.cap hcount hfresh.standing
  rw [trace, ← List.map_dropLast] at hpace
  rw [← List.map_dropLast]
  intro rows hrows
  obtain ⟨turn, hturn, rfl⟩ := List.mem_map.mp hrows
  exact hpace _ (List.mem_map_of_mem hturn)

end Pages

section Complete

variable {stores : TenantStores} {engine : Regex.Engine} {read : Str → Option Json}
  {client : ℕ → ClientRequest → Except Str (ℤ × Str)} {ms : List LabelMatcher}
  {fs : List LineFilter} {pushed : ScanBindData} {columnIds : List ℕ} {state : ScanGlobalState}
  {own : Store}

/-- The entries of a tenant that a scan is after: told apart by their keys, and
fewer than a page in any nanosecond. -/
structure Store.Pageable (own : Store) : Prop where
  keys : ((own.listing true).map LokiRow.key).Nodup
  crowd : ∀ t, own.countAt t < defaultPerRequestCap

/-- A scan returns the first entries of its window, as many as the limit allows,
and keeps to their order from page to page. -/
theorem scan_pages (hstart : scanInitGlobal pushed columnIds = .ok state)
    (hlimit : 1 ≤ pushed.limit) (hmax : pushed.limit ≤ int64Max)
    (hwindow : InInt64 (effectiveStart pushed)) (hwindow' : InInt64 (effectiveEnd pushed))
    (hendpoint : endpointProblem pushed.endpoint = []) (hbytes : IsBytes (effectiveQuery pushed))
    (hread : readSelection (effectiveQuery pushed) = some (ms, fs))
    (hserver : stores.Answers engine read client)
    (hown : own = (stores.store (scopeOrgIds (buildAuthHeaders pushed.auth))).restrict
      (selects engine ms fs)) (hpageable : own.Pageable) :
    let backward := pushed.direction != "forward".toList
    let window := own.window backward (effectiveStart pushed) (effectiveEnd pushed)
    ∃ pages : List (List LokiRow),
      (pageSource read (fun n call ↦ httpGet (client n) call) pushed state).Delivers
        ⟨state.pager, []⟩ pages ∧
      pages.flatten.Perm (window.take pushed.limit.toNat) ∧
      pages.Pairwise (fun earlier later ↦
        ∀ a ∈ earlier, ∀ b ∈ later, inDirection backward a b) ∧
      ∀ k, (∀ t, own.countAt t ≤ k) →
        ∀ page ∈ pages.dropLast, defaultPerRequestCap.toNat - k ≤ page.length := by
  intro backward window
  unfold scanInitGlobal at hstart
  split_ifs at hstart
  obtain rfl := Except.ok.inj hstart
  let pager := StreamPager.new (effectiveQuery pushed) (effectiveStart pushed) (effectiveEnd pushed)
    pushed.direction pushed.limit defaultPerRequestCap
  have hfresh : pager.Fresh := new_fresh hwindow hwindow' hlimit hmax (by decide)
  obtain ⟨pages, hserves, hanswers⟩ := hserver.serves hendpoint hbytes hread pushed.fnName
    (buildAuthHeaders pushed.auth ++
      [("X-Loki-Response-Encoding-Flags".toList, "categorize-labels".toList)])
  have hvalues : scopeOrgIds (buildAuthHeaders pushed.auth ++
      [("X-Loki-Response-Encoding-Flags".toList, "categorize-labels".toList)]) =
        scopeOrgIds (buildAuthHeaders pushed.auth) :=
    TableScan.scopeOrgIds_state pushed columnIds
  rw [hvalues, ← hown] at hserves
  obtain ⟨q, turns, hdrain, _, hperm, hordered, hended⟩ :=
    drain_distinct hfresh hserves hpageable.keys
  have hflat : (turns.map StreamPager.Turn.rows).flatten = drainedRows turns := rfl
  refine ⟨turns.map StreamPager.Turn.rows,
    delivers_of_drain hanswers hfresh.valid rfl hdrain, ?_, hordered, ?_⟩
  · rw [hflat]
    rcases hended with hlen | ⟨hcount, _⟩
    · rw [hlen] at hperm
      exact hperm.trans (.of_eq List.take_eq_take_min.symm)
    · -- no nanosecond holds a page, so none can have stopped the scan
      rw [count_target] at hcount
      have hle := hcount.trans (own.count_window_le _ _ _ _)
      have hlt := hpageable.crowd (pager.rank q.reader.frontier)
      have hcap : pager.perRequestCap.toNat = 5000 := rfl
      have hcap' : defaultPerRequestCap = 5000 := rfl
      omega
  · intro k hk
    exact drain_pace hfresh hserves hpageable.keys hk hdrain

variable {m : SecretManager} {store : List Secret} {params : ScanParams} {nowNs : ℤ}
  {db : Database} {fn text endpoint : Str} {auth : AuthConfig} {types : List ColumnType}
  {names : List Str} {virtual : ℕ → Bool} {width : ℕ}

end Complete

section Samples

def umbrellaParams : ScanParams :=
  { sampleParams with
    connection := { endpoint := some "http://loki:3100".toList, tenant := some "umbrella".toList } }

def umbrellaScan : ScanBindData := { sampleBind with auth := ⟨[], [], [], "umbrella".toList, []⟩ }

def webMatcher : LabelMatcher := ⟨"app".toList, .eq, "web".toList⟩

def umbrellaStore : Store :=
  (twoTenants.store (scopeOrgIds (buildAuthHeaders umbrellaScan.auth))).restrict
    (selects Regex.reference [webMatcher] [])

theorem umbrellaStore_listing : umbrellaStore.listing true = [lineRow "up"] := by decide +kernel

theorem umbrellaStore_pageable : umbrellaStore.Pageable := by
  refine ⟨?_, Store.countAt_lt_of_rows (by decide) ?_⟩
  · rw [umbrellaStore_listing]
    decide
  · intro r hr
    unfold Store.countAt
    rw [umbrellaStore_listing] at hr ⊢
    rw [List.mem_singleton.mp hr]
    decide

end Samples

end DuckdbLoki
