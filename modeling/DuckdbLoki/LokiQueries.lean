import DuckdbLoki.PagedScans

namespace DuckdbLoki

section Selector

/-- What the selector argument selects by; there may be none. A closing brace
in the pipeline is left out. -/
inductive BaseSelects : Str → List LabelMatcher → List LineFilter → Prop
  | absent : BaseSelects [] [] []
  | given {lead sel pipe : Str} {ws : List LogQL.Matcher} {toks : List LogQL.Token}
      {ms : List LabelMatcher} {fs : List LineFilter}
      (hlead : ∀ c ∈ lead, LogQL.isSpace c = true)
      (hsel : (LogQL.tokens ('{' :: (sel ++ ['}']))).bind LogQL.selector = some (ws, []))
      (hpipe : LogQL.tokens pipe = some toks) (hclose : '}' ∉ pipe)
      (hms : ws.mapM readMatcher = some ms) (hfs : readLineFilters toks = some fs) :
      BaseSelects (lead ++ '{' :: (sel ++ '}' :: pipe)) ms fs

theorem any_isBrace_of_lineFilters {toks : List LogQL.Token} {fs : List (Str × Str)}
    (h : LogQL.lineFilters toks = some fs) : toks.any LogQL.isBrace = false := by
  induction toks using LogQL.lineFilters.induct generalizing fs with
  | case1 => rfl
  | case2 o l ts ih =>
    obtain ⟨_, _, h⟩ := Option.bind_eq_some_iff.mp h
    obtain ⟨_, hrest, _⟩ := Option.map_eq_some_iff.mp h
    exact ih hrest
  | case3 ts hnil hcons =>
    rw [LogQL.lineFilters] at h
    · cases h
    · exact hnil
    · exact hcons

theorem mapM_append_some {α β : Type} {f : α → Option β} {l l' : List α} {r r' : List β}
    (h : l.mapM f = some r) (h' : l'.mapM f = some r') : (l ++ l').mapM f = some (r ++ r') := by
  rw [List.mapM_append, h, h']
  rfl

theorem readLineFilters_append {toks toks' : List LogQL.Token} {fs fs' : List LineFilter}
    (h : readLineFilters toks = some fs) (h' : readLineFilters toks' = some fs') :
    readLineFilters (toks ++ toks') = some (fs ++ fs') := by
  obtain ⟨texts, htexts, hfs⟩ := Option.bind_eq_some_iff.mp h
  obtain ⟨texts', htexts', hfs'⟩ := Option.bind_eq_some_iff.mp h'
  rw [readLineFilters, LogQL.lineFilters_append htexts htexts', Option.bind_some]
  exact mapM_append_some hfs hfs'

variable {base : Str} {ms matchers : List LabelMatcher} {fs filters : List LineFilter}

theorem BaseSelects.readSelection (h : BaseSelects base ms fs)
    (hmatchers : ∀ m ∈ matchers, isValidLabelName m.label = true) :
    readSelection (buildSelectorQuery base matchers filters) =
      some (ms ++ matchers, fs ++ filters) := by
  cases h with
  | absent => exact readSelection_build hmatchers filters
  | given hlead hsel hpipe hclose hms hfs =>
    obtain ⟨_, htexts, _⟩ := Option.bind_eq_some_iff.mp hfs
    obtain ⟨pushed, rest, hread, hpushed, hrest⟩ := extends_of_notMem hlead hsel hpipe
      (any_isBrace_of_lineFilters htexts) filters hmatchers hclose
    rw [DuckdbLoki.readSelection, hread, Option.bind_some, LogQL.Query.meaning,
      mapM_append_some hms hpushed, readLineFilters_append hfs hrest]
    rfl

theorem selects_append (engine : Regex.Engine) (r : LokiRow) :
    selects engine (ms ++ matchers) (fs ++ filters) r =
      (selects engine ms fs r && selects engine matchers filters r) := by
  unfold selects
  rw [List.all_append, List.all_append]
  ac_rfl

end Selector

section Stores

theorem Store.restrict_restrict (s : Store) (keep keep' : LokiRow → Bool) :
    (s.restrict keep).restrict keep' = s.restrict (fun r ↦ keep r && keep' r) := by
  have hlisting : ((s.restrict keep).restrict keep').listing =
      (s.restrict (fun r ↦ keep r && keep' r)).listing := by
    funext backward
    change ((s.listing backward).filter keep).filter keep' = _
    rw [List.filter_filter]
    exact List.filter_congr (fun r _ ↦ Bool.and_comm _ _)
  unfold Store.restrict at hlisting ⊢
  congr

theorem Store.Pageable.restrict {s : Store} (h : s.Pageable) (keep : LokiRow → Bool) :
    (s.restrict keep).Pageable := by
  refine ⟨h.keys.sublist (List.filter_sublist.map _), ?_⟩
  intro t
  have hle : (s.restrict keep).countAt t ≤ s.countAt t :=
    (List.filter_sublist.filter _).length_le
  have hlt := h.crowd t
  omega

end Stores

section Where

variable {db : Database} {virtual : ℕ → Bool} {labels : List Str} {get : LogicalGet}
  {filters : List Expression} {bind : ScanBindData}

structure WhereQuery (db : Database) (virtual : ℕ → Bool) (labels : List Str) (get : LogicalGet)
    (filters : List Expression) : Prop where
  names : get.names = schemaNames labels
  projects : Projects virtual labels get.columnIds
  plain : ∀ e ∈ filters, Plain db get labels e
  timePlain : ∀ e ∈ filters, TimePlain db get e

theorem satisfies_iff {r : LokiRow} : satisfies db get labels filters r = true ↔
    ∀ e ∈ filters, e.Holds db (get.row labels r) := by
  unfold satisfies
  rw [List.all_eq_true]
  exact forall₂_congr (fun _ _ ↦ decide_eq_true_iff)

theorem satisfies_split (hdb : db.Lawful) (hp : Planned get bind.labelColumns)
    (hm : bind.pushedMatchers = []) (hf : bind.pushedLineFilters = [])
    (hplain : ∀ e ∈ filters, Plain db get bind.labelColumns e) (r : LokiRow) :
    satisfies db get bind.labelColumns filters r =
      (decide ((pushdownComplexFilter db get bind filters).1.Accepts db.regex r) &&
        satisfies db get bind.labelColumns (pushdownComplexFilter db get bind filters).2 r) := by
  have hempty : bind.Accepts db.regex r := by
    unfold ScanBindData.Accepts
    rw [hm, hf]
    exact ⟨nofun, nofun⟩
  have hexact := foldl_pushFilter_exact hdb hp hplain (bind, []) rfl r
  rw [and_iff_left (List.forall_mem_nil _), and_iff_right hempty] at hexact
  rw [Bool.eq_iff_iff, Bool.and_eq_true, decide_eq_true_iff, satisfies_iff, satisfies_iff]
  exact hexact.symm

end Where

section Query

variable {m : SecretManager} {store : List Secret} {params : ScanParams} {nowNs : ℤ}
  {selector : Option Str} {bind : ScanBindData} {types : List ColumnType} {names : List Str}
  {db : Database} {virtual : ℕ → Bool} {get : LogicalGet} {filters : List Expression}
  {ms : List LabelMatcher} {fs : List LineFilter} {endpoint : Str} {auth : AuthConfig}
  {stores : TenantStores} {read : Str → Option Json}
  {client : ℕ → ClientRequest → Except Str (ℤ × Str)} {own : Store} {state : ScanGlobalState}
  {width : ℕ}

structure Unfiltered (selector : Option Str) (bind : ScanBindData) : Prop where
  unpushed : bind.Unpushed
  mode : bind.pushdownMode = true
  base : bind.baseSelector = selector.getD []
  promotable : Promotable bind.labelColumns

theorem unfiltered_of_lokiBind
    (h : (lokiBind m store params nowNs selector).run = some (.ok (bind, types, names))) :
    Unfiltered selector bind := by
  obtain ⟨_, hresolved, _⟩ := resolved_of_lokiBind h
  have hlabels := promoteLabels_promotable hresolved.labels
  rw [hresolved.frame]
  exact ⟨⟨rfl, rfl, rfl, rfl⟩, rfl, rfl, hlabels⟩

theorem WhereQuery.planned (h : WhereQuery db virtual bind.labelColumns get filters)
    (hbind : Unfiltered selector bind) : Planned get bind.labelColumns :=
  ⟨h.names, hbind.promotable.unreserved⟩

theorem Unfiltered.readSelection (h : Unfiltered selector bind)
    (hbase : BaseSelects (selector.getD []) ms fs) (get : LogicalGet)
    (filters : List Expression) :
    let pushed := (pushdownComplexFilter db get bind filters).1
    readSelection (effectiveQuery pushed) =
      some (ms ++ pushed.pushedMatchers, fs ++ pushed.pushedLineFilters) := by
  intro pushed
  have honto : PushedOnto bind pushed := pushedOnto_foldl db get filters (bind, [])
  have hsame : pushed.pushdownMode = true ∧ pushed.baseSelector = selector.getD [] := by
    rw [honto.frame]
    exact ⟨h.mode, h.base⟩
  rw [effectiveQuery, if_pos hsame.1, hsame.2]
  apply hbase.readSelection
  intro matcher hmatcher
  rcases honto.labels matcher hmatcher with hold | hlabel
  · rw [h.unpushed.matchers] at hold
    exact absurd hold List.not_mem_nil
  · exact h.promotable.valid _ hlabel

/-- The entries of the window that are selected and satisfy the filters are the
answer: those the query asks for that satisfy the filters. -/
theorem WhereQuery.filter_window (h : WhereQuery db virtual bind.labelColumns get filters)
    (hbind : Unfiltered selector bind) (hdb : db.Lawful) (hc : db.LawfulCasts)
    {backward : Bool} (hfit : ∀ r ∈ own.listing backward, InInt64 r.tsNs) :
    let pushed := (pushdownComplexFilter db get bind filters).1
    ((own.window backward (effectiveStart pushed) (effectiveEnd pushed)).filter
        (fun r ↦ decide (pushed.Accepts db.regex r))).filter
          (satisfies db get bind.labelColumns filters) =
      (own.listing backward).filter (fun r ↦ decide (pushed.Asks r.tsNs) &&
        satisfies db get bind.labelColumns filters r) := by
  intro pushed
  have hp := h.planned hbind
  have honto : PushedOnto bind pushed := pushedOnto_foldl db get filters (bind, [])
  have hmode : pushed.pushdownMode = true := by
    rw [honto.frame]
    exact hbind.mode
  rw [Store.window, List.filter_filter, List.filter_filter]
  apply List.filter_congr
  intro r hr
  cases hsat : satisfies db get bind.labelColumns filters r with
  | false => rw [Bool.false_and, Bool.and_false, Bool.false_and]
  | true =>
    have hsplit := satisfies_split hdb hp hbind.unpushed.matchers hbind.unpushed.lineFilters
      h.plain r
    rw [hsat] at hsplit
    have haccepts := (Bool.and_eq_true_iff.mp hsplit.symm).1
    have hspans : pushed.Spans r.tsNs := by
      refine ScanBindData.Spans.pushdown hc hp h.timePlain (satisfies_iff.mp hsat) ⟨?_, ?_⟩
      · rw [hbind.unpushed.startNs]
        exact (hfit r hr).1
      · exact fun hne ↦ absurd hbind.unpushed.endNs hne
    rw [haccepts, Bool.true_and, Bool.true_and, Bool.and_true, decide_eq_decide]
    exact effective_iff hmode hspans

theorem sendable_restrict (values : List Str) {keep : LokiRow → Bool} {backward : Bool} :
    ∀ r ∈ ((stores.store values).restrict keep).listing backward, InInt64 r.tsNs := by
  intro r hr
  have hmem : r ∈ (stores.store values).listing true :=
    ((stores.store values).listing_perm true backward).mem_iff.mpr (List.mem_of_mem_filter hr)
  exact (stores.sendable values r hmem).tsNs

theorem restrict_accepts (base : Store) (ms : List LabelMatcher) (fs : List LineFilter)
    (pushed : ScanBindData) :
    (base.restrict (selects db.regex ms fs)).restrict
        (fun r ↦ decide (pushed.Accepts db.regex r)) =
      base.restrict
        (selects db.regex (ms ++ pushed.pushedMatchers) (fs ++ pushed.pushedLineFilters)) := by
  rw [Store.restrict_restrict]
  congr 1
  funext r
  rw [selects_append, selects_eq]

theorem WhereQuery.keepRows_accepted (h : WhereQuery db virtual bind.labelColumns get filters)
    (hbind : Unfiltered selector bind) (hdb : db.Lawful) {rows : List LokiRow} :
    let pushed := (pushdownComplexFilter db get bind filters).1
    let emit := emitRow virtual bind.labelColumns get.columnIds
    (∀ r ∈ rows, pushed.Accepts db.regex r) →
      keepRows db (pushdownComplexFilter db get bind filters).2 (rows.map emit) =
        (rows.filter (satisfies db get bind.labelColumns filters)).map emit := by
  intro pushed emit haccepted
  rw [keepRows_map db _ h.projects]
  congr 1
  apply List.filter_congr
  intro r hr
  rw [satisfies_split hdb (h.planned hbind) hbind.unpushed.matchers hbind.unpushed.lineFilters
    h.plain r, decide_eq_true (haccepted r hr), Bool.true_and]

/-- A query on `loki` keeps, of the entries of the tenant that its selector
selects, those that satisfy its filters and lie in the window it asks for: none
but these and none twice, and all of them where Loki selects no more than the
limit allows. -/
theorem loki_query
    (hbind : (lokiBind m store params nowNs selector).run = some (.ok (bind, types, names)))
    (hbase : BaseSelects (selector.getD []) ms fs)
    (hconnection : resolveLokiConnection m store params.connection "loki".toList =
      .ok (endpoint, auth)) (hendpoint : endpointProblem endpoint = [])
    (hquery : WhereQuery db virtual bind.labelColumns get filters) (hdb : db.Lawful)
    (hc : db.LawfulCasts) (hfit : db.NanosFit)
    (hbytes : IsBytes (effectiveQuery (pushdownComplexFilter db get bind filters).1))
    (hstart : scanInitGlobal (pushdownComplexFilter db get bind filters).1 get.columnIds =
      .ok state) (hnow : InInt64 nowNs) (hserver : stores.Answers db.regex read client)
    (hown : own = (stores.store (scopeOrgIds (buildAuthHeaders auth))).restrict
      (selects db.regex ms fs)) (hpageable : own.Pageable) (hwidth : 0 < width) :
    let pushed := (pushdownComplexFilter db get bind filters).1
    let residuals := (pushdownComplexFilter db get bind filters).2
    let backward := decide (params.direction.map lower ≠ some "forward".toList)
    let limit := ((params.limit.map Subtype.val).getD 5000).toNat
    let selected := (own.window backward (effectiveStart pushed) (effectiveEnd pushed)).filter
      (fun r ↦ decide (pushed.Accepts db.regex r))
    let answer := (own.listing backward).filter (fun r ↦ decide (pushed.Asks r.tsNs) &&
      satisfies db get bind.labelColumns filters r)
    let emit := emitRow virtual bind.labelColumns get.columnIds
    ∀ calls reader, Machines.Run (scanCall read (fun n call ↦ httpGet (client n) call) virtual
        width pushed state) state.reader calls reader → (∃ x ∈ calls, x.event = []) →
      let rows := keepRows db residuals (Streaming.Source.handedOut calls)
      rows.Perm (((selected.take limit).filter
          (satisfies db get bind.labelColumns filters)).map emit) ∧
        rows.Subperm (answer.map emit) ∧
        (selected.length ≤ limit → rows.Perm (answer.map emit)) := by
  intro pushed residuals backward limit selected answer emit calls reader hrun hends rows
  have hunfiltered := unfiltered_of_lokiBind hbind
  have hplan : Plans m store params nowNs db "loki".toList
      (buildSelectorQuery (selector.getD []) pushed.pushedMatchers pushed.pushedLineFilters)
      pushed types names := .loki hbind rfl
  obtain ⟨hkeeps, _⟩ := hplan.keepsParams
  obtain ⟨hwindow, hwindow'⟩ := hplan.inInt64 hnow hfit
  obtain ⟨hendpointEq, hauthEq⟩ :=
    Prod.mk.inj (Except.ok.inj (hconnection.symm.trans hkeeps.connection))
  rw [hendpointEq] at hendpoint
  have hsent : ∀ r ∈ own.listing backward, InInt64 r.tsNs := by
    rw [hown]
    exact sendable_restrict _
  have hselects : own.restrict (fun r ↦ decide (pushed.Accepts db.regex r)) =
      (stores.store (scopeOrgIds (buildAuthHeaders pushed.auth))).restrict
        (selects db.regex (ms ++ pushed.pushedMatchers) (fs ++ pushed.pushedLineFilters)) := by
    rw [hown, hauthEq]
    exact restrict_accepts _ _ _ _
  obtain ⟨pages, hdelivers, hperm, _⟩ := scan_pages hstart hkeeps.limit_pos hkeeps.limit_le
    hwindow hwindow' hendpoint hbytes (hunfiltered.readSelection hbase get filters) hserver
    hselects (hpageable.restrict _)
  rw [hkeeps.direction, hkeeps.limit, Store.window_restrict] at hperm
  have hcolumns : state.columnIds = get.columnIds := by
    unfold scanInitGlobal at hstart
    split_ifs at hstart
    rw [← Except.ok.inj hstart]
  have hlabels : pushed.labelColumns = bind.labelColumns :=
    (pushedOnto_foldl db get filters (bind, [])).labelColumns
  have hhanded := (streams_reader hdelivers).all_handed_out hrun hwidth hends
  rw [hcolumns, hlabels] at hhanded
  have haccepted : ∀ r ∈ pages.flatten, pushed.Accepts db.regex r := by
    intro r hr
    have hselected := List.mem_of_mem_take (hperm.mem_iff.mp hr)
    exact of_decide_eq_true (List.mem_filter.mp hselected).2
  have hkept : rows =
      (pages.flatten.filter (satisfies db get bind.labelColumns filters)).map emit := by
    change keepRows db residuals _ = _
    rw [hhanded]
    exact hquery.keepRows_accepted hunfiltered hdb haccepted
  have hfirst : rows.Perm (((selected.take limit).filter
      (satisfies db get bind.labelColumns filters)).map emit) := by
    rw [hkept]
    exact (hperm.filter _).map emit
  have hanswer : selected.filter (satisfies db get bind.labelColumns filters) = answer :=
    hquery.filter_window hunfiltered hdb hc hsent
  refine ⟨hfirst, ?_, ?_⟩
  · rw [← hanswer]
    exact hfirst.subperm.trans
      (((List.take_sublist limit selected).filter _).map emit).subperm
  · intro hfew
    rw [List.take_of_length_le hfew, hanswer] at hfirst
    exact hfirst

end Query

section Samples

def labelledParams : ScanParams := { umbrellaParams with labels := some [some "app".toList] }

def labelledBind : ScanBindData :=
  { umbrellaScan with
    pushdownMode := true
    query := []
    baseSelector := "\x7bapp=\"web\"\x7d".toList
    labelColumns := ["app".toList]
    fnName := "loki".toList }

theorem labelledBind_bound :
    (lokiBind .reference [] labelledParams 10 (some "\x7bapp=\"web\"\x7d".toList)).run =
      some (.ok (labelledBind, declareSchema ["app".toList])) := by
  decide +kernel

theorem upFilters_where :
    WhereQuery .reference (fun _ ↦ false) ["app".toList] webGet upFilters where
  names := upFilters_query.names
  projects := upFilters_query.projects
  plain := upFilters_query.plain
  timePlain := by
    intro e he
    simp only [upFilters, List.mem_cons, List.not_mem_nil, or_false] at he
    rcases he with rfl | rfl
    all_goals
      exact ⟨fun v hcol ↦ absurd hcol (by decide), fun v hcol ↦ absurd hcol (by decide)⟩

theorem loki_query_umbrella :
    let pushed := (pushdownComplexFilter .reference webGet labelledBind upFilters).1
    ∃ state calls reader, scanInitGlobal pushed webGet.columnIds = .ok state ∧
      Machines.Run (scanCall tenantRead (fun n call ↦ httpGet (tenantClient n) call) (fun _ ↦ false)
        2 pushed state) state.reader calls reader ∧
      (keepRows .reference (pushdownComplexFilter .reference webGet labelledBind upFilters).2
        (Streaming.Source.handedOut calls)).Perm
          [[.temporal .timestampNs (-7), .varchar "up".toList, .varchar "web".toList]] := by
  intro pushed
  obtain ⟨state, hstart⟩ : ∃ state, scanInitGlobal pushed webGet.columnIds = .ok state := ⟨_, rfl⟩
  have hconnection : resolveLokiConnection .reference [] labelledParams.connection
      "loki".toList = .ok ("http://loki:3100".toList, umbrellaScan.auth) := by decide +kernel
  have hbase : BaseSelects ([] ++ '{' :: ("app=\"web\"".toList ++ '}' :: [])) [webMatcher] [] :=
    have hsel : (LogQL.tokens ('{' :: ("app=\"web\"".toList ++ ['}']))).bind LogQL.selector =
        some ([⟨"app".toList, "=".toList, "\"web\"".toList⟩], []) := by decide +kernel
    .given nofun hsel rfl List.not_mem_nil (by decide +kernel) rfl
  have hscan := loki_query labelledBind_bound hbase hconnection (by decide) upFilters_where
    Database.reference_lawful Database.reference_lawfulCasts Database.reference_nanosFit
    (by decide +kernel) hstart (by decide) twoTenants_answers (rfl : umbrellaStore = _)
    umbrellaStore_pageable Nat.two_pos
  have hexec : (Machines.exec (scanCall tenantRead (fun n call ↦ httpGet (tenantClient n) call)
      (fun _ ↦ false) 2 pushed state) state.reader [4, 4]).any
        (fun x ↦ decide (∃ call ∈ x.1, call.event = [])) = true := by
    rw [← Except.ok.inj hstart]
    decide +kernel
  obtain ⟨⟨calls, reader⟩, hcalls, hempty⟩ := (Option.any_eq_true _ _).mp hexec
  have hrun := Machines.exec_run hcalls
  obtain ⟨_, _, hall⟩ := hscan calls reader hrun (of_decide_eq_true hempty)
  refine ⟨state, calls, reader, hstart, hrun, (hall ?_).trans ?_⟩
  · decide +kernel
  · have hbackward :
        decide (labelledParams.direction.map lower ≠ some "forward".toList) = true := rfl
    rw [hbackward, umbrellaStore_listing]
    decide +kernel

end Samples

end DuckdbLoki
