import DuckdbLoki.PagerDrain
import DuckdbLoki.Pushdown
import DuckdbLoki.SelectorQuery

namespace DuckdbLoki

open StreamPager

section Server

def LogQL.Query.meaning (q : LogQL.Query) : Option (List LabelMatcher × List LineFilter) :=
  (q.matchers.mapM readMatcher).bind (fun ms ↦ (readLineFilters q.pipeline).map (ms, ·))

def readSelection (query : Str) : Option (List LabelMatcher × List LineFilter) :=
  (LogQL.read query).bind LogQL.Query.meaning

def selects (engine : Regex.Engine) (ms : List LabelMatcher) (fs : List LineFilter)
    (r : LokiRow) : Bool :=
  ms.all (fun m ↦ m.accepts engine r.labels) && fs.all (fun f ↦ f.accepts engine r.line)

def Store.restrict (s : Store) (keep : LokiRow → Bool) : Store where
  listing backward := (s.listing backward).filter keep
  sorted backward := (s.sorted backward).filter keep
  perm := s.perm.filter keep

def Store.ServesQueries (engine : Regex.Engine) (s : Store)
    (server : ℕ → QueryRangeRequest → List StreamChunk) : Prop :=
  ∀ query ms fs, readSelection query = some (ms, fs) →
    (s.restrict (selects engine ms fs)).Serves query server

def Store.loki (engine : Regex.Engine) (s : Store) (n : ℕ) (request : QueryRangeRequest) :
    List StreamChunk :=
  match (RangeQuery.ofRequest request).bind (fun q ↦ readSelection q.query) with
  | none => []
  | some (ms, fs) => (s.restrict (selects engine ms fs)).respond n request

theorem Store.loki_serves (engine : Regex.Engine) (s : Store) :
    s.ServesQueries engine (s.loki engine) := by
  intro query ms fs hread n request q hq hquery
  rw [Store.loki, hq, Option.bind_some, hquery, hread]
  exact Store.respond_serves _ query n request q hq hquery

theorem Store.window_restrict (s : Store) (keep : LokiRow → Bool) (backward : Bool)
    (startNs endNs : ℤ) :
    (s.restrict keep).window backward startNs endNs =
      (s.window backward startNs endNs).filter keep := by
  simp only [Store.window, Store.restrict, List.filter_filter, Bool.and_comm]

theorem splitBase_nil : splitBase (trim []) = ([], []) := rfl

theorem read_build {ms : List LabelMatcher} (hms : ∀ m ∈ ms, isValidLabelName m.label = true)
    (fs : List LineFilter) : LogQL.read (buildSelectorQuery [] ms fs) =
      some ⟨ms.map LabelMatcher.written, fs.flatMap LineFilter.written⟩ := by
  rw [buildSelectorQuery_eq splitBase_nil]
  apply read_of_tokens
  · rw [tokens_query (show LogQL.tokens [] = some (LogQL.render []) from rfl) hms,
      tokens_queryTail (show LogQL.tokens (trim []) = some [] from rfl)]
    rfl
  · exact isMatchOp_written
  · exact any_isBrace_written fs

theorem readSelection_build {ms : List LabelMatcher}
    (hms : ∀ m ∈ ms, isValidLabelName m.label = true) (fs : List LineFilter) :
    readSelection (buildSelectorQuery [] ms fs) = some (ms, fs) := by
  rw [readSelection, read_build hms, Option.bind_some, LogQL.Query.meaning,
    mapM_some readMatcher_written, readLineFilters_written]
  rfl

/-- A synthesized query is read as its own matchers and line filters, whatever
their values are. -/
theorem buildSelectorQuery_reads_back (ms : List LabelMatcher) (fs : List LineFilter)
    (hms : ∀ m ∈ ms, isValidLabelName m.label = true) :
    LogQL.read (buildSelectorQuery [] ms fs) =
        some ⟨ms.map LabelMatcher.written, fs.flatMap LineFilter.written⟩ ∧
      readSelection (buildSelectorQuery [] ms fs) = some (ms, fs) :=
  ⟨read_build hms fs, readSelection_build hms fs⟩

def quotedMatcher : LabelMatcher := ⟨"job".toList, .eq, "\"\x7d | json #\n\\".toList⟩

def quotedFilter : LineFilter := ⟨.contains, "\", x=\"".toList⟩

theorem buildSelectorQuery_reads_back_quoted :
    LogQL.read (buildSelectorQuery [] [quotedMatcher] [quotedFilter]) =
        some ⟨[quotedMatcher.written], quotedFilter.written⟩ ∧
      readSelection (buildSelectorQuery [] [quotedMatcher] [quotedFilter]) =
        some ([quotedMatcher], [quotedFilter]) := by
  apply buildSelectorQuery_reads_back
  intro m hm
  rw [List.mem_singleton.mp hm]
  decide

end Server

section OnePage

variable {p : StreamPager} {server : ℕ → QueryRangeRequest → List StreamChunk}

theorem requested_first (hp : p.Valid) (hemitted : p.emitted = 0) (hboundary : p.boundaryKeys = ∅)
    (hcap : p.userLimit ≤ p.perRequestCap) : p.requested = p.userLimit := by
  have := hp.limit_pos
  simp only [requested, Paging.Plan.want, plan, reader, hboundary, hemitted, Finset.card_empty,
    Int.toNat_zero]
  omega

theorem accept_only_page (hp : p.Valid) (hemitted : p.emitted = 0) (hboundary : p.boundaryKeys = ∅)
    (hcap : p.userLimit ≤ p.perRequestCap) {page : List StreamChunk}
    (hpage : ((pageRows page).length : ℤ) ≤ p.userLimit) :
    ∃ q, p.awaiting.accept page = some (q, pageRows page) ∧ q.done = true := by
  have hq := hp.awaiting
  have hst := scanPage_spec hq.emitted_nonneg hq.emitted_le page
  have hrows : (p.awaiting.scanPage page).rows = pageRows page := by
    rw [hst.rows, Paging.Plan.fresh]
    simp only [reader, awaiting, hboundary, hemitted, plan, Finset.notMem_empty,
      not_false_eq_true, decide_true, List.filter_true, Int.toNat_zero, Nat.sub_zero]
    exact List.take_of_length_le (by omega)
  have hrequested : p.awaiting.requestedThisPage = p.userLimit :=
    requested_first hp hemitted hboundary hcap
  have hemitted' : (p.awaiting.scanPage page).emitted = (pageRows page).length := by
    rw [hst.emitted, hrows]
    simp only [awaiting, hemitted, zero_add]
  have hlimit : p.awaiting.userLimit = p.userLimit := rfl
  unfold StreamPager.accept
  rw [if_pos, hrows]
  · exact ⟨_, rfl, rfl⟩
  · rw [hst.pageCount, hrequested, hemitted', hlimit]
    omega

theorem drain_only_page (hp : p.Valid) (hopen : p.done = false) (hemitted : p.emitted = 0)
    (hboundary : p.boundaryKeys = ∅) (hcap : p.userLimit ≤ p.perRequestCap)
    (hpage : ((pageRows (server 0 p.request)).length : ℤ) ≤ p.userLimit) {fuel : ℕ}
    (hfuel : 0 < fuel) :
    ∃ q turns, drain server 0 fuel p = some (q, turns) ∧
      drainedRows turns = pageRows (server 0 p.request) := by
  obtain ⟨fuel, rfl⟩ := Nat.exists_eq_succ_of_ne_zero hfuel.ne'
  obtain ⟨q, hacc, hdone⟩ := accept_only_page hp hemitted hboundary hcap hpage
  have hrest : drain server 1 fuel q = some (q, []) := by
    unfold drain
    rw [if_pos hdone]
  have hnext : p.nextRequest = some (p.awaiting, p.request) := nextRequest_eq hp
  refine ⟨q, [⟨p, p.request, server 0 p.request, pageRows (server 0 p.request), q⟩], ?_, ?_⟩
  · rw [drain, if_neg (by rw [hopen]; exact Bool.false_ne_true)]
    simp only [hnext, hacc, hrest, Option.bind_eq_bind, Option.bind_some, Nat.zero_add]
  · exact List.append_nil _

end OnePage

section Lists

theorem take_filter_perm {α : Type} (keep : α → Bool) (n : ℕ) (l : List α) :
    ((l.take n).filter keep).Perm (l.filter keep) ↔ ∀ a ∈ l.drop n, keep a = false := by
  have hsplit : l.filter keep = (l.take n).filter keep ++ (l.drop n).filter keep := by
    rw [← List.filter_append, List.take_append_drop]
  have hnone : (∀ a ∈ l.drop n, keep a = false) ↔ (l.drop n).filter keep = [] := by
    simp only [List.filter_eq_nil_iff, Bool.not_eq_true]
  rw [hnone, hsplit]
  constructor
  · intro h
    have hlen := h.length_eq
    rw [List.length_append] at hlen
    exact List.length_eq_zero_iff.mp (by omega)
  · intro h
    rw [h, List.append_nil]

end Lists

section Query

variable (db : Database) (get : LogicalGet)

def satisfies (labels : List Str) (conjuncts : List Expression) (r : LokiRow) : Bool :=
  conjuncts.all (fun e ↦ e.Holds db (get.row labels r))

/-- The rows a query keeps: its scan is pushed to, started and drained, and
what was not erased is applied to the rows. -/
def queryRows (server : ℕ → QueryRangeRequest → List StreamChunk) (fuel : ℕ)
    (bind : ScanBindData) (filters : List Expression) : Option (List LokiRow) :=
  let (pushed, residuals) := pushdownComplexFilter db get bind filters
  match scanInitGlobal pushed get.columnIds with
  | .error _ => none
  | .ok st => (drain server 0 fuel st.pager).map (fun (_, turns) ↦
      (drainedRows turns).filter (satisfies db get bind.labelColumns residuals))

def HasLabelEquality (labels : List Str) (filters : List Expression) : Prop :=
  ∃ flipped column constant name v, columnComparison flipped .eq column constant ∈ filters ∧
    resolveColumnName get column = some name ∧ name ∈ labels ∧ evalConstant db constant = some v

end Query

section Pushed

variable {db : Database} {get : LogicalGet}

theorem foldl_pushFilter_matcher {filters : List Expression} {labels : List Str}
    (hp : Planned get labels) (hlabel : HasLabelEquality db get labels filters)
    (st : ScanBindData × List Expression) (hst : st.1.labelColumns = labels) :
    (filters.foldl (pushFilter db get) st).1.pushedMatchers ≠ [] := by
  obtain ⟨flipped, column, constant, name, v, hmem, hcol, hl, hv⟩ := hlabel
  obtain ⟨before, after, rfl⟩ := List.append_of_mem hmem
  rw [List.foldl_append, List.foldl_cons]
  have hbefore := pushedOnto_foldl db get before st
  set st' := before.foldl (pushFilter db get) st
  have hpushed : (pushFilter db get st' (columnComparison flipped .eq column constant)).1 =
      pushMatcher st'.1 ⟨name, .eq, db.toText v⟩ := by
    have hl' : name ∈ st'.1.labelColumns := by rw [hbefore.labelColumns, hst]; exact hl
    refine (tryFilter_columnComparison flipped .eq st'.1 hcol hv).trans ?_
    rw [if_neg (hp.label_ne hl).1, isLabelColumn, if_pos (decide_eq_true hl')]
  have hafter := pushedOnto_foldl db get after
    (pushFilter db get st' (columnComparison flipped .eq column constant))
  rw [hpushed] at hafter
  exact List.ne_nil_of_mem (hafter.subset _ (List.mem_append_right _ List.mem_cons_self))

theorem take_buildSelectorQuery {ms : List LabelMatcher} (hne : ms ≠ [])
    (hms : ∀ m ∈ ms, isValidLabelName m.label = true) (fs : List LineFilter) :
    (buildSelectorQuery [] ms fs).take 2 ≠ "\x7b\x7d".toList := by
  obtain ⟨m, ms, rfl⟩ := List.exists_cons_of_ne_nil hne
  obtain ⟨hlabel, hword⟩ := isWordChar_of_label (hms m List.mem_cons_self)
  obtain ⟨c, label, hm⟩ := List.exists_cons_of_ne_nil hlabel
  rw [buildSelectorQuery_eq splitBase_nil]
  rw [hm] at hword
  intro h
  have hc : c = '}' := by
    simpa [joinMatchers, matcherToString, hm, trim] using h
  rw [hc] at hword
  exact absurd (hword '}' List.mem_cons_self) (by decide)

end Pushed

section Answer

variable {db : Database} {get : LogicalGet} {labels : List Str} {bind : ScanBindData}
  {filters : List Expression}

def selected (engine : Regex.Engine) (s : Store) (bind : ScanBindData) : List LokiRow :=
  (s.window true (effectiveStart bind) (effectiveEnd bind)).filter (fun r ↦ bind.Accepts engine r)

theorem selects_eq (engine : Regex.Engine) (bind : ScanBindData) (r : LokiRow) :
    selects engine bind.pushedMatchers bind.pushedLineFilters r =
      decide (bind.Accepts engine r) := by
  rw [Bool.eq_iff_iff, decide_eq_true_iff, selects, ScanBindData.Accepts, Bool.and_eq_true,
    List.all_eq_true, List.all_eq_true]

theorem queryRows_eq_some {server : ℕ → QueryRangeRequest → List StreamChunk} {fuel : ℕ}
    {st : ScanGlobalState} {q : StreamPager} {turns : List Turn}
    (hst : scanInitGlobal (pushdownComplexFilter db get bind filters).1 get.columnIds = .ok st)
    (hdrain : drain server 0 fuel st.pager = some (q, turns)) :
    queryRows db get server fuel bind filters = some ((drainedRows turns).filter
      (satisfies db get bind.labelColumns (pushdownComplexFilter db get bind filters).2)) := by
  unfold queryRows
  dsimp only
  rw [hst]
  dsimp only
  rw [hdrain]
  rfl

structure TableScan (pushed : ScanBindData) : Prop where
  matchers : pushed.pushedMatchers ≠ []
  labels : ∀ m ∈ pushed.pushedMatchers, isValidLabelName m.label = true
  query : effectiveQuery pushed =
    buildSelectorQuery [] pushed.pushedMatchers pushed.pushedLineFilters
  direction : pushed.direction = "backward".toList
  limit : pushed.limit = 5000

namespace TableScan

def pager (pushed : ScanBindData) : StreamPager :=
  .new (effectiveQuery pushed) (effectiveStart pushed) (effectiveEnd pushed) pushed.direction
    pushed.limit defaultPerRequestCap

variable {pushed : ScanBindData} (hscan : TableScan pushed)

include hscan

theorem scanInitGlobal_eq (columnIds : List ℕ) :
    scanInitGlobal pushed columnIds = .ok ⟨pushed.endpoint, buildAuthHeaders pushed.auth ++
      [("X-Loki-Response-Encoding-Flags".toList, "categorize-labels".toList)], pager pushed,
      columnIds⟩ := by
  apply if_neg
  intro h
  rw [hscan.query] at h
  exact take_buildSelectorQuery hscan.matchers hscan.labels _ h.2

theorem pager_valid : (pager pushed).Valid :=
  new_valid (by rw [hscan.limit]; decide) (by rw [hscan.limit]; decide) (by decide)

theorem userLimit_eq : (pager pushed).userLimit = 5000 := hscan.limit

theorem pager_backward : (pager pushed).backward = true := by
  change (pushed.direction != "forward".toList) = true
  rw [hscan.direction]
  decide

theorem page_perm {engine : Regex.Engine} {s : Store}
    {server : ℕ → QueryRangeRequest → List StreamChunk} (hserver : s.ServesQueries engine server) :
    (pageRows (server 0 (pager pushed).request)).Perm ((selected engine s pushed).take 5000) := by
  have hread : readSelection (pager pushed).logql =
      some (pushed.pushedMatchers, pushed.pushedLineFilters) := by
    rw [show (pager pushed).logql = _ from hscan.query]
    exact readSelection_build hscan.labels _
  have h := hserver _ _ _ hread 0 (pager pushed).request _ (ofRequest_request _) rfl
  have hcursor : (pager pushed).cursorNs = effectiveEnd pushed := if_pos hscan.pager_backward
  rw [requested_first hscan.pager_valid rfl rfl hscan.userLimit_eq.le, hscan.pager_backward,
    if_pos rfl, if_pos rfl, hcursor, Store.select, Store.window_restrict, hscan.userLimit_eq] at h
  rw [show selects engine pushed.pushedMatchers pushed.pushedLineFilters = _ from
    funext (selects_eq engine pushed)] at h
  exact h

end TableScan

variable {endpoint : Str} {auth : AuthConfig} {nowNs : ℤ}
  (hbind : logsTableBind endpoint auth labels nowNs = some bind) (hp : Planned get labels)
  (hvalid : ∀ l ∈ labels, isValidLabelName l = true)
  (hlabel : HasLabelEquality db get labels filters)

include hbind in
theorem logsTableBind_spec :
    (bind.pushedMatchers = [] ∧ bind.pushedLineFilters = []) ∧ bind.labelColumns = labels ∧
      bind.pushdownMode = true ∧ bind.baseSelector = [] ∧ bind.direction = "backward".toList ∧
      bind.limit = 5000 := by
  obtain ⟨hourAgo, _, rfl⟩ := Option.map_eq_some_iff.mp hbind
  exact ⟨⟨rfl, rfl⟩, rfl, rfl, rfl, rfl, rfl⟩

include hbind hp hvalid hlabel

theorem tableScan_pushed : TableScan (pushdownComplexFilter db get bind filters).1 := by
  obtain ⟨⟨hempty, _⟩, hlabels, hmode, hbase, hdirection, hlimit⟩ := logsTableBind_spec hbind
  have honto : PushedOnto bind (pushdownComplexFilter db get bind filters).1 :=
    pushedOnto_foldl db get filters (bind, [])
  refine ⟨foldl_pushFilter_matcher hp hlabel (bind, []) hlabels, ?_, ?_, ?_, ?_⟩
  · intro m hm
    refine hvalid _ (hlabels ▸ (honto.labels m hm).resolve_left ?_)
    rw [hempty]
    exact List.not_mem_nil
  · rw [effectiveQuery, honto.frame, hmode, hbase]
    rfl
  · rw [honto.frame]
    exact hdirection
  · rw [honto.frame]
    exact hlimit

/-- The scan of the table is drained in one page of at most 5000 entries. -/
theorem queryRows_eq {s : Store} {server : ℕ → QueryRangeRequest → List StreamChunk}
    (hserver : s.ServesQueries db.regex server) {fuel : ℕ} (hfuel : 0 < fuel) :
    ∃ rows, queryRows db get server fuel bind filters = some rows ∧ rows.Perm
      (((selected db.regex s (pushdownComplexFilter db get bind filters).1).take 5000).filter
        (satisfies db get labels (pushdownComplexFilter db get bind filters).2)) := by
  have hscan := tableScan_pushed hbind hp hvalid hlabel
  have hpage := hscan.page_perm hserver
  obtain ⟨q, turns, hdrain, hrows⟩ := drain_only_page hscan.pager_valid rfl rfl rfl
    hscan.userLimit_eq.le (by
      rw [hpage.length_eq, hscan.userLimit_eq]
      exact_mod_cast List.length_take_le _ _) hfuel
  refine ⟨_, queryRows_eq_some (hscan.scanInitGlobal_eq _) hdrain, ?_⟩
  rw [hrows, (logsTableBind_spec hbind).2.1]
  exact hpage.filter _

omit hvalid hlabel in
theorem satisfies_pushed (hdb : db.Lawful) (hplain : ∀ e ∈ filters, Plain db get labels e)
    (r : LokiRow) : satisfies db get labels filters r =
      (satisfies db get labels (pushdownComplexFilter db get bind filters).2 r &&
        decide ((pushdownComplexFilter db get bind filters).1.Accepts db.regex r)) := by
  obtain ⟨⟨hmatchers, hfilters⟩, hlabels, _⟩ := logsTableBind_spec hbind
  have hempty : bind.Accepts db.regex r := by
    simp [ScanBindData.Accepts, hmatchers, hfilters]
  have hexact := foldl_pushFilter_exact hdb hp hplain (bind, []) hlabels r
  rw [Bool.eq_iff_iff, Bool.and_eq_true, decide_eq_true_iff, and_comm, pushdownComplexFilter]
  simp only [satisfies, List.all_eq_true, decide_eq_true_eq]
  rw [hexact]
  simp [hempty]

/-- The table answers a query completely unless an entry that satisfies it
comes after the first 5000 that Loki selects. -/
theorem queryRows_complete_iff (hdb : db.Lawful)
    (hplain : ∀ e ∈ filters, Plain db get labels e) (s : Store)
    {server : ℕ → QueryRangeRequest → List StreamChunk}
    (hserver : s.ServesQueries db.regex server) {fuel : ℕ} (hfuel : 0 < fuel) :
    let pushed := (pushdownComplexFilter db get bind filters).1
    let window := s.window true (effectiveStart pushed) (effectiveEnd pushed)
    ∃ rows, queryRows db get server fuel bind filters = some rows ∧
      (rows.Perm (window.filter (satisfies db get labels filters)) ↔
        ∀ r ∈ (selected db.regex s pushed).drop 5000,
          satisfies db get labels filters r = false) := by
  intro pushed window
  obtain ⟨rows, hrows, hperm⟩ := queryRows_eq hbind hp hvalid hlabel hserver hfuel
  refine ⟨rows, hrows, ?_⟩
  have hkept : window.filter (satisfies db get labels filters) =
      (selected db.regex s pushed).filter
        (satisfies db get labels (pushdownComplexFilter db get bind filters).2) := by
    rw [selected, List.filter_filter]
    exact List.filter_congr (fun r _ ↦ satisfies_pushed hbind hp hdb hplain r)
  rw [hkept, hperm.congr_left, take_filter_perm]
  apply forall₂_congr
  intro r hr
  have hacc := (List.mem_filter.mp (List.mem_of_mem_drop hr)).2
  rw [satisfies_pushed hbind hp hdb hplain r, hacc, Bool.and_true]

end Answer

section Samples

def jobLogs : ScanBindData :=
  { jobBind with
    endpoint := "http://localhost:3100".toList
    fnName := "loki logs".toList
    selectorHint := "add a WHERE equality/IN on a label column, e.g. WHERE job = 'api'".toList
    endNs := 10000
    startNs := 10000 - nanosPerHour }

theorem jobLogs_bound : logsTableBind "http://localhost:3100".toList ⟨[], [], [], [], []⟩
    ["job".toList] 10000 = some jobLogs := by
  decide

def needleFilters : List Expression :=
  [labelEquals 2 "api".toList,
    .comparison .eq (.columnRef 1) (.constant (.varchar "needle".toList))]

theorem needleFilters_label :
    HasLabelEquality .reference jobGet ["job".toList] needleFilters :=
  ⟨false, .columnRef 2, .constant (.varchar "api".toList), "job".toList, .varchar "api".toList,
    List.mem_cons_self, rfl, List.mem_cons_self, evalConstant_constant (by simp)⟩

theorem needleFilters_plain :
    ∀ e ∈ needleFilters, Plain .reference jobGet ["job".toList] e := by
  intro e he
  simp only [needleFilters, List.mem_cons, List.not_mem_nil, or_false] at he
  rcases he with rfl | rfl
  · exact plain_labelEquals (by decide)
  · refine fun _ ↦ ⟨fun name v hcol _ hl ↦ ?_, fun name v hcol ↦ nomatch hcol⟩
    rw [List.mem_singleton.mp hl] at hcol
    exact absurd hcol (by decide)

def hayRow (t : ℕ) : LokiRow :=
  { apiRow with tsNs := t, line := if t = 0 then "needle".toList else "noise".toList }

def haystack (n : ℕ) : Store where
  listing
    | true => ((List.range n).map hayRow).reverse
    | false => (List.range n).map hayRow
  sorted backward := by
    have hlt : ((List.range n).map hayRow).Pairwise (fun a b ↦ a.tsNs ≤ b.tsNs) :=
      List.pairwise_map.mpr (List.pairwise_lt_range.imp (fun h ↦ Int.ofNat_le.mpr h.le))
    cases backward with
    | true => exact List.pairwise_reverse.mpr hlt
    | false => exact hlt
  perm := List.reverse_perm _

def jobLogsPushed : ScanBindData :=
  { jobLogs with pushedMatchers := [⟨"job".toList, .eq, "api".toList⟩] }

theorem needleFilters_pushed : pushdownComplexFilter .reference jobGet jobLogs needleFilters =
    (jobLogsPushed, [.comparison .eq (.columnRef 1) (.constant (.varchar "needle".toList))]) :=
  rfl

theorem satisfies_residual (t : ℕ) :
    satisfies .reference jobGet ["job".toList]
      [.comparison .eq (.columnRef 1) (.constant (.varchar "needle".toList))] (hayRow t) =
        decide (t = 0) := by
  rw [satisfies, List.all_cons, List.all_nil, Bool.and_true, decide_eq_decide,
    comparison_holds (a := .varchar (hayRow t).line) rfl rfl, compareValues_eq, hayRow]
  dsimp only
  split_ifs with ht <;> simp [ht]

theorem satisfies_needle (t : ℕ) :
    satisfies .reference jobGet ["job".toList] needleFilters (hayRow t) = decide (t = 0) := by
  have hjob : (labelEquals 2 "api".toList).Holds .reference
      (jobGet.row jobBind.labelColumns apiRow) := by decide
  rw [← satisfies_residual, needleFilters, satisfies, List.all_cons]
  exact (congrArg (· && _) (decide_eq_true hjob)).trans (Bool.true_and _)

theorem haystack_window {n : ℕ} (hn : n ≤ 10000) :
    (haystack n).window true (effectiveStart jobLogsPushed) (effectiveEnd jobLogsPushed) =
      ((List.range n).map hayRow).reverse := by
  refine List.filter_eq_self.mpr (fun r hr ↦ decide_eq_true ?_)
  obtain ⟨t, ht, rfl⟩ := List.mem_map.mp (List.mem_reverse.mp hr)
  have ht := List.mem_range.mp ht
  have hstart : effectiveStart jobLogsPushed = 10000 - nanosPerHour := rfl
  have hend : effectiveEnd jobLogsPushed = 10000 := rfl
  rw [hstart, hend, nanosPerHour, hayRow]
  dsimp only
  omega

theorem haystack_selected {n : ℕ} (hn : n ≤ 10000) :
    selected Database.reference.regex (haystack n) jobLogsPushed =
      ((List.range n).map hayRow).reverse := by
  rw [selected, haystack_window hn]
  refine List.filter_eq_self.mpr (fun r hr ↦ decide_eq_true ?_)
  obtain ⟨t, _, rfl⟩ := List.mem_map.mp (List.mem_reverse.mp hr)
  exact ⟨(by decide : ∀ m ∈ jobLogsPushed.pushedMatchers, m.accepts Regex.reference apiRow.labels),
    nofun⟩

theorem queryRows_complete_haystack :
    ∃ rows, queryRows .reference jobGet ((haystack 5000).loki Regex.reference) 1 jobLogs
        needleFilters = some rows ∧
      rows.Perm (((haystack 5000).window true (effectiveStart jobLogsPushed)
        (effectiveEnd jobLogsPushed)).filter
          (satisfies .reference jobGet ["job".toList] needleFilters)) := by
  obtain ⟨rows, hrows, hiff⟩ := queryRows_complete_iff jobLogs_bound jobGet_planned (by decide)
    needleFilters_label Database.reference_lawful needleFilters_plain (haystack 5000)
    (Store.loki_serves _ _) one_pos
  refine ⟨rows, hrows, hiff.mpr ?_⟩
  rw [needleFilters_pushed]
  dsimp only
  rw [haystack_selected (by decide), List.drop_of_length_le (by simp)]
  exact nofun

theorem haystack_countAt (n : ℕ) (t : ℤ) : (haystack n).countAt t ≤ 1 := by
  have hnodup : (((haystack n).listing true).map LokiRow.tsNs).Nodup := by
    change ((((List.range n).map hayRow).reverse).map LokiRow.tsNs).Nodup
    rw [List.map_reverse, List.nodup_reverse, List.map_map]
    exact List.nodup_range.map (fun _ _ h ↦ Int.ofNat_inj.mp h)
  have hcount := List.nodup_iff_count_le_one.mp hnodup t
  rw [List.count, List.countP_map, List.countP_eq_length_filter] at hcount
  exact hcount

/-- The needle is one entry too old: the scan stops at the noise. -/
theorem needle_lost :
    (∀ t, (haystack 5001).countAt t < 5000) ∧
      queryRows .reference jobGet ((haystack 5001).loki Regex.reference) 1 jobLogs
        needleFilters = some [] ∧
      hayRow 0 ∈ ((haystack 5001).window true (effectiveStart jobLogsPushed)
        (effectiveEnd jobLogsPushed)).filter
          (satisfies .reference jobGet ["job".toList] needleFilters) := by
  refine ⟨fun t ↦ ?_, ?_, ?_⟩
  · have := haystack_countAt 5001 t
    omega
  · have hnoise : ∀ r ∈ (((List.range 5000).map Nat.succ).map hayRow).reverse,
        ¬ satisfies .reference jobGet ["job".toList]
          [.comparison .eq (.columnRef 1) (.constant (.varchar "needle".toList))] r = true := by
      intro r hr
      obtain ⟨t, ht, rfl⟩ := List.mem_map.mp (List.mem_reverse.mp hr)
      obtain ⟨k, _, rfl⟩ := List.mem_map.mp ht
      rw [satisfies_residual]
      simp
    obtain ⟨rows, hrows, hperm⟩ := queryRows_eq jobLogs_bound jobGet_planned (by decide)
      needleFilters_label (Store.loki_serves _ (haystack 5001)) one_pos
    rw [needleFilters_pushed] at hperm
    dsimp only at hperm
    rw [haystack_selected (by decide), List.range_succ_eq_map, List.map_cons, List.reverse_cons,
      List.take_append_of_le_length (by simp), List.take_of_length_le (by simp),
      List.filter_eq_nil_iff.mpr hnoise] at hperm
    exact hrows.trans (congrArg some hperm.eq_nil)
  · rw [haystack_window (by decide)]
    refine List.mem_filter.mpr ⟨?_, (satisfies_needle 0).trans rfl⟩
    exact List.mem_reverse.mpr (List.mem_map_of_mem (List.mem_range.mpr (by decide)))

end Samples

end DuckdbLoki
