import DuckdbLoki.LogsTable

namespace DuckdbLoki

section SeriesScan

def seriesTableBind (endpoint : Str) (auth : AuthConfig) (labelColumns : List Str) (nowNs : ℤ) :
    Option ScanBindData :=
  (checked (nowNs - nanosPerHour)).map (fun hourAgo ↦
    { pushdownMode := true
      baseSelector := []
      endpoint := endpoint
      auth := auth
      labelColumns := labelColumns
      fnName := "loki series".toList
      endNs := nowNs
      startNs := hourAgo })

structure SeriesScanGlobalState where
  endpoint : Str
  headers : List (Str × Str)
  request : QueryRangeRequest
  columnIds : List ℕ
deriving DecidableEq

def seriesSelectorRequired (bind : ScanBindData) : Str :=
  bind.fnName ++ (": a stream selector is required \u00e2\u0080\u0094 add a WHERE equality/IN on " ++
    "a label column (Loki refuses /series without a selector)").toList

def seriesScanInitGlobal (bind : ScanBindData) (columnIds : List ℕ) :
    Except Str SeriesScanGlobalState :=
  let selector := buildSelectorQuery bind.baseSelector bind.pushedMatchers []
  if selector.take 2 = "\x7b\x7d".toList then .error (seriesSelectorRequired bind)
  else .ok {
    endpoint := bind.endpoint
    headers := buildAuthHeaders bind.auth
    request := buildSeriesRequest selector bind.startNs bind.endNs
    columnIds := columnIds }

theorem seriesRequest_selector (selector : Str) (startNs endNs : ℤ) :
    (buildSeriesRequest selector startNs endNs).params.lookup "match[]".toList = some selector := by
  simp [buildSeriesRequest, appendTimeBounds]

end SeriesScan

section LabelTests

inductive LabelTest
  | equals (v : Str)
  | differs (v : Str)
  | oneOf (vs : List Str)
deriving DecidableEq

def LabelTest.matcher (name : Str) : LabelTest → LabelMatcher
  | .equals v => ⟨name, .eq, v⟩
  | .differs v => ⟨name, .neq, v⟩
  | .oneOf vs => ⟨name, .re, inListRegex vs⟩

/-- An equality with a text that is not empty, or a list that has such a text
and no empty one after it. -/
def LabelTest.needsLabel : LabelTest → Bool
  | .equals v => v ≠ []
  | .differs _ => false
  | .oneOf vs => vs.dropWhile (· = []) ≠ [] ∧ [] ∉ vs.dropWhile (· = [])

variable (db : Database) (get : LogicalGet)

def comparisonTest (labels : List Str) (op : CompareOp) (name : Str) (v : Value) :
    Option (Str × LabelTest) :=
  if name = "timestamp".toList ∨ name ∉ labels then none
  else match op with
    | .eq => some (name, .equals (db.toText v))
    | .ne => some (name, .differs (db.toText v))
    | _ => none

def labelTest (labels : List Str) : Expression → Option (Str × LabelTest)
  | .comparison op left right =>
    (comparisonSides db get op left right).bind
      (fun (op, name, v) ↦ comparisonTest db labels op name v)
  | .operator .isIn (column :: member :: members) =>
    (resolveColumnName get column).bind (fun name ↦
      if name ∈ labels then
        (constantMembers db (member :: members)).map
          (fun values ↦ (name, .oneOf (values.map db.toText)))
      else none)
  | _ => none

def pushedMatcher (labels : List Str) (e : Expression) : Option LabelMatcher :=
  (labelTest db get labels e).map (fun (name, t) ↦ t.matcher name)

variable {db get}

theorem tryComparison_pushedMatchers (bind : ScanBindData) (op : CompareOp)
    (left right : Expression) : (tryComparison db get bind op left right).1.pushedMatchers =
      bind.pushedMatchers ++
        (pushedMatcher db get bind.labelColumns (.comparison op left right)).toList := by
  rw [pushedMatcher, labelTest]
  unfold tryComparison
  cases comparisonSides db get op left right with
  | none => exact (List.append_nil _).symm
  | some sides =>
    obtain ⟨op', name, v⟩ := sides
    rw [Option.bind_some]
    dsimp only
    unfold comparisonTest
    by_cases htime : name = "timestamp".toList
    · rw [if_pos htime, if_pos (Or.inl htime), Option.map_none, Option.toList_none, List.append_nil]
      cases tryValueToEpochNsExact db v with
      | none => rfl
      | some ns => exact (pushTimeBound_frame bind op' ns).1
    · rw [if_neg htime]
      by_cases hlabel : name ∈ bind.labelColumns
      · have hcolumn : isLabelColumn bind name = true := decide_eq_true hlabel
        rw [if_pos hcolumn, if_neg (not_or.mpr ⟨htime, not_not.mpr hlabel⟩)]
        cases op' with
        | eq | ne => rfl
        | _ => exact (List.append_nil _).symm
      · have hcolumn : ¬ isLabelColumn bind name = true := fun h ↦ hlabel (of_decide_eq_true h)
        rw [if_neg hcolumn, if_pos (Or.inr hlabel)]
        exact (List.append_nil _).symm

theorem tryInList_pushedMatchers (bind : ScanBindData) (type : OperatorType)
    (children : List Expression) : (tryInList db get bind type children).1.pushedMatchers =
      bind.pushedMatchers ++
        (pushedMatcher db get bind.labelColumns (.operator type children)).toList := by
  unfold tryInList
  split
  · rename_i column member members
    rw [pushedMatcher, labelTest]
    cases resolveColumnName get column with
    | none => exact (List.append_nil _).symm
    | some name =>
      rw [Option.bind_some]
      dsimp only
      by_cases hlabel : name ∈ bind.labelColumns
      · have hcolumn : isLabelColumn bind name = true := decide_eq_true hlabel
        rw [if_neg (not_not.mpr hcolumn), if_pos hlabel]
        cases constantMembers db (member :: members) with
        | none => exact (List.append_nil _).symm
        | some values => rfl
      · have hcolumn : ¬ isLabelColumn bind name = true := fun h ↦ hlabel (of_decide_eq_true h)
        rw [if_pos hcolumn, if_neg hlabel]
        exact (List.append_nil _).symm
  · rename_i hother
    have hnone : pushedMatcher db get bind.labelColumns (.operator type children) = none := by
      unfold pushedMatcher labelTest
      split
      · rename_i heq
        cases heq
      · rename_i column member members heq
        obtain ⟨htype, hchildren⟩ := Expression.operator.inj heq
        exact absurd hchildren (hother column member members htype)
      · rfl
    rw [hnone]
    exact (List.append_nil _).symm

theorem tryFunction_pushedMatchers (bind : ScanBindData) (fname : Str)
    (children : List Expression) (negated : Bool) :
    (tryFunction db get bind fname children negated).1.pushedMatchers = bind.pushedMatchers := by
  rcases tryFunction_cases db get bind fname children negated with
    h | ⟨_, _, _, _, _, _, _, _, _, h⟩
  · rw [h]
  · rw [h]
    rfl

theorem tryFilter_pushedMatchers (bind : ScanBindData) (e : Expression) :
    (tryFilter db get bind e).1.pushedMatchers =
      bind.pushedMatchers ++ (pushedMatcher db get bind.labelColumns e).toList := by
  fun_cases tryFilter db get bind e with
  | case1 => exact (tryFunction_pushedMatchers _ _ _ _).trans (List.append_nil _).symm
  | case2 => exact tryInList_pushedMatchers _ _ _
  | case3 => exact tryComparison_pushedMatchers _ _ _ _
  | case4 => exact (tryFunction_pushedMatchers _ _ _ _).trans (List.append_nil _).symm
  | case5 e _ hoperator hcomparison _ =>
    have hnone : pushedMatcher db get bind.labelColumns e = none := by
      cases e with
      | comparison op left right => exact absurd rfl (hcomparison op left right)
      | operator type children => exact absurd rfl (hoperator type children)
      | _ => rfl
    rw [hnone]
    exact (List.append_nil _).symm

theorem foldl_pushedMatchers (filters : List Expression) (st : ScanBindData × List Expression) :
    (filters.foldl (pushFilter db get) st).1.pushedMatchers =
      st.1.pushedMatchers ++ filters.filterMap (pushedMatcher db get st.1.labelColumns) := by
  induction filters generalizing st with
  | nil => exact (List.append_nil _).symm
  | cons e filters ih =>
    have hstep : (pushFilter db get st e).1.pushedMatchers =
        st.1.pushedMatchers ++ (pushedMatcher db get st.1.labelColumns e).toList :=
      tryFilter_pushedMatchers st.1 e
    have hlabels : (pushFilter db get st e).1.labelColumns = st.1.labelColumns :=
      (pushedOnto_tryFilter e).labelColumns
    rw [List.foldl_cons, ih, hstep, hlabels, List.append_assoc, List.filterMap_cons]
    cases pushedMatcher db get st.1.labelColumns e <;> rfl

end LabelTests

section Required

variable {engine : Regex.Engine}

/-- An `=` or `=~` matcher that a stream without the label does not satisfy. -/
def LabelMatcher.isRequired (engine : Regex.Engine) (m : LabelMatcher) : Bool :=
  (m.op = .eq || m.op = .re) && !m.accepts engine .empty

theorem isRequired_matcher (he : engine.Lawful) (name : Str) (t : LabelTest) :
    (t.matcher name).isRequired engine = t.needsLabel := by
  rw [Bool.eq_iff_iff]
  cases t with
  | equals v =>
    have haccepts : (LabelTest.matcher name (.equals v)).accepts engine .empty =
        decide ([] = v) := rfl
    rw [LabelMatcher.isRequired, haccepts, Bool.and_eq_true, Bool.not_eq_true',
      decide_eq_false_iff_not, LabelTest.needsLabel, decide_eq_true_iff, ne_comm]
    exact and_iff_right rfl
  | differs v => simp [LabelTest.matcher, LabelMatcher.isRequired, LabelTest.needsLabel]
  | oneOf vs =>
    have hmatch := inListRegex_fullMatch he vs []
    have haccepts : (LabelTest.matcher name (.oneOf vs)).accepts engine .empty =
        engine.fullMatch (inListRegex vs) [] := rfl
    rw [LabelMatcher.isRequired, haccepts, Bool.and_eq_true, Bool.not_eq_true', ← Bool.not_eq_true,
      hmatch, not_or, not_and, LabelTest.needsLabel, decide_eq_true_iff]
    constructor
    · intro ⟨_, hmem, hempty⟩
      exact ⟨fun h ↦ hempty h rfl, hmem⟩
    · intro ⟨hne, hmem⟩
      exact ⟨rfl, hmem, fun h ↦ absurd h hne⟩

def HasRequiredMatcher (engine : Regex.Engine) (query : Str) : Prop :=
  ∃ ms fs, readSelection query = some (ms, fs) ∧ ∃ m ∈ ms, m.isRequired engine = true

theorem hasRequiredMatcher_build {ms : List LabelMatcher}
    (hms : ∀ m ∈ ms, isValidLabelName m.label = true) (fs : List LineFilter) :
    HasRequiredMatcher engine (buildSelectorQuery [] ms fs) ↔
      ∃ m ∈ ms, m.isRequired engine = true := by
  have hread := readSelection_build hms fs
  constructor
  · intro ⟨ms', fs', hread', hm⟩
    obtain ⟨hms', _⟩ := Prod.mk.inj (Option.some.inj (hread.symm.trans hread'))
    rw [hms']
    exact hm
  · intro hm
    exact ⟨ms, fs, hread, hm⟩

theorem take_buildSelectorQuery_nil (fs : List LineFilter) :
    (buildSelectorQuery [] [] fs).take 2 = "\x7b\x7d".toList := by
  rw [buildSelectorQuery_eq splitBase_nil]
  rfl

/-- A scan keeps the rule if it is refused for its selector, or asks Loki by a
selector that needs a label. -/
def KeepsRule {γ : Type} (engine : Regex.Engine) (error : Str) (selector : γ → Option Str)
    (result : Except Str γ) : Prop :=
  result = .error error ∨
    ∃ st query, result = .ok st ∧ selector st = some query ∧ HasRequiredMatcher engine query

end Required

section Rule

variable {engine : Regex.Engine}

/-- Both scans refuse what starts with an empty selector, and nothing else. -/
theorem keepsRule_iff {γ : Type} {error : Str} {selector : γ → Option Str} {st : γ}
    {ms : List LabelMatcher} (hms : ∀ m ∈ ms, isValidLabelName m.label = true)
    (fs : List LineFilter) (hst : selector st = some (buildSelectorQuery [] ms fs)) :
    KeepsRule engine error selector
        (if (buildSelectorQuery [] ms fs).take 2 = "\x7b\x7d".toList then .error error else .ok st) ↔
      ms = [] ∨ ∃ m ∈ ms, m.isRequired engine = true := by
  by_cases hnone : ms = []
  · rw [hnone, if_pos (take_buildSelectorQuery_nil fs)]
    exact iff_of_true (Or.inl rfl) (Or.inl rfl)
  · rw [if_neg (take_buildSelectorQuery hnone hms fs), KeepsRule, or_iff_right (by simp),
      or_iff_right hnone, ← hasRequiredMatcher_build hms fs]
    constructor
    · intro ⟨st', query, hok, hsel, h⟩
      obtain rfl := Except.ok.inj hok
      rw [hst] at hsel
      rw [Option.some.inj hsel]
      exact h
    · intro h
      exact ⟨st, _, rfl, hst, h⟩

variable {pushed : ScanBindData} (hbase : pushed.baseSelector = [])
  (hlabels : ∀ m ∈ pushed.pushedMatchers, isValidLabelName m.label = true)

include hbase hlabels

theorem scanInitGlobal_keepsRule_iff (hmode : pushed.pushdownMode = true) (columnIds : List ℕ) :
    KeepsRule engine (selectorRequired pushed) (fun st ↦ some st.pager.logql)
        (scanInitGlobal pushed columnIds) ↔
      pushed.pushedMatchers = [] ∨ ∃ m ∈ pushed.pushedMatchers, m.isRequired engine = true := by
  have hquery : effectiveQuery pushed =
      buildSelectorQuery [] pushed.pushedMatchers pushed.pushedLineFilters := by
    rw [effectiveQuery, if_pos hmode, hbase]
  unfold scanInitGlobal
  rw [hquery]
  simp only [hmode, true_and]
  exact keepsRule_iff hlabels _ rfl

theorem seriesScanInitGlobal_keepsRule_iff (columnIds : List ℕ) :
    KeepsRule engine (seriesSelectorRequired pushed)
        (fun st ↦ st.request.params.lookup "match[]".toList)
        (seriesScanInitGlobal pushed columnIds) ↔
      pushed.pushedMatchers = [] ∨ ∃ m ∈ pushed.pushedMatchers, m.isRequired engine = true := by
  unfold seriesScanInitGlobal
  rw [hbase]
  exact keepsRule_iff hlabels [] (seriesRequest_selector _ _ _)

end Rule

section Refusals

variable {db : Database} {get : LogicalGet} {labels : List Str} {filters : List Expression}

def AsksForLabel (db : Database) (get : LogicalGet) (labels : List Str)
    (filters : List Expression) : Prop :=
  (∀ e ∈ filters, labelTest db get labels e = none) ∨
    ∃ e ∈ filters, ∃ name t, labelTest db get labels e = some (name, t) ∧ t.needsLabel = true

theorem pushedMatcher_eq_some {e : Expression} {m : LabelMatcher} :
    pushedMatcher db get labels e = some m ↔
      ∃ name t, labelTest db get labels e = some (name, t) ∧ m = t.matcher name := by
  rw [pushedMatcher, Option.map_eq_some_iff]
  constructor
  · intro ⟨⟨name, t⟩, h, hm⟩
    exact ⟨name, t, h, hm.symm⟩
  · intro ⟨name, t, h, hm⟩
    exact ⟨(name, t), h, hm.symm⟩

theorem pushedMatchers_required_iff {engine : Regex.Engine} (he : engine.Lawful) :
    filters.filterMap (pushedMatcher db get labels) = [] ∨
        (∃ m ∈ filters.filterMap (pushedMatcher db get labels), m.isRequired engine = true) ↔
      AsksForLabel db get labels filters := by
  apply or_congr
  · rw [List.filterMap_eq_nil_iff]
    simp only [pushedMatcher, Option.map_eq_none_iff]
  · constructor
    · intro ⟨m, hm, hreq⟩
      obtain ⟨e, hmem, he'⟩ := List.mem_filterMap.mp hm
      obtain ⟨name, t, htest, hmatcher⟩ := pushedMatcher_eq_some.mp he'
      rw [hmatcher, isRequired_matcher he] at hreq
      exact ⟨e, hmem, name, t, htest, hreq⟩
    · intro ⟨e, hmem, name, t, htest, hneeds⟩
      refine ⟨t.matcher name, List.mem_filterMap.mpr ⟨e, hmem, ?_⟩, ?_⟩
      · exact pushedMatcher_eq_some.mpr ⟨name, t, htest, rfl⟩
      · rw [isRequired_matcher he]
        exact hneeds

structure AttachedScan (labels : List Str) (bind : ScanBindData) : Prop where
  mode : bind.pushdownMode = true
  base : bind.baseSelector = []
  matchers : bind.pushedMatchers = []
  labelColumns : bind.labelColumns = labels

theorem attachedScan_logs {endpoint : Str} {auth : AuthConfig} {nowNs : ℤ} {bind : ScanBindData}
    (h : logsTableBind endpoint auth labels nowNs = some bind) : AttachedScan labels bind := by
  obtain ⟨hourAgo, _, rfl⟩ := Option.map_eq_some_iff.mp h
  exact ⟨rfl, rfl, rfl, rfl⟩

theorem attachedScan_series {endpoint : Str} {auth : AuthConfig} {nowNs : ℤ}
    {bind : ScanBindData} (h : seriesTableBind endpoint auth labels nowNs = some bind) :
    AttachedScan labels bind := by
  obtain ⟨hourAgo, _, rfl⟩ := Option.map_eq_some_iff.mp h
  exact ⟨rfl, rfl, rfl, rfl⟩

theorem AttachedScan.pushed {bind : ScanBindData} (h : AttachedScan labels bind)
    (hvalid : ∀ l ∈ labels, isValidLabelName l = true) :
    let pushed := (pushdownComplexFilter db get bind filters).1
    pushed.pushdownMode = true ∧ pushed.baseSelector = [] ∧
      pushed.pushedMatchers = filters.filterMap (pushedMatcher db get labels) ∧
      ∀ m ∈ pushed.pushedMatchers, isValidLabelName m.label = true := by
  intro pushed
  have honto : PushedOnto bind pushed := pushedOnto_foldl db get filters (bind, [])
  have hmatchers : pushed.pushedMatchers = filters.filterMap (pushedMatcher db get labels) := by
    have hfold : pushed.pushedMatchers = _ := foldl_pushedMatchers filters (bind, [])
    rw [h.matchers, h.labelColumns] at hfold
    exact hfold
  refine ⟨?_, ?_, hmatchers, ?_⟩
  · rw [honto.frame]
    exact h.mode
  · rw [honto.frame]
    exact h.base
  · intro m hm
    apply hvalid
    rw [← h.labelColumns]
    apply (honto.labels m hm).resolve_left
    rw [h.matchers]
    exact List.not_mem_nil

/-- Both tables of an attached database keep the mandatory-selector rule exactly
when no conjunct tests a label or one of them needs a label. -/
theorem tables_keepRule_iff {engine : Regex.Engine} (he : engine.Lawful)
    (hvalid : ∀ l ∈ labels, isValidLabelName l = true) {endpoint : Str} {auth : AuthConfig}
    {nowNs : ℤ} {logs series : ScanBindData}
    (hlogs : logsTableBind endpoint auth labels nowNs = some logs)
    (hseries : seriesTableBind endpoint auth labels nowNs = some series) (columnIds : List ℕ) :
    let pushedLogs := (pushdownComplexFilter db get logs filters).1
    let pushedSeries := (pushdownComplexFilter db get series filters).1
    (KeepsRule engine (selectorRequired pushedLogs) (fun st ↦ some st.pager.logql)
        (scanInitGlobal pushedLogs columnIds) ↔ AsksForLabel db get labels filters) ∧
      (KeepsRule engine (seriesSelectorRequired pushedSeries)
          (fun st ↦ st.request.params.lookup "match[]".toList)
          (seriesScanInitGlobal pushedSeries columnIds) ↔
        AsksForLabel db get labels filters) := by
  intro pushedLogs pushedSeries
  constructor
  · obtain ⟨hmode, hbase, hmatchers, hlabels⟩ := (attachedScan_logs hlogs).pushed hvalid
    rw [scanInitGlobal_keepsRule_iff hbase hlabels hmode, hmatchers]
    exact pushedMatchers_required_iff he
  · obtain ⟨_, hbase, hmatchers, hlabels⟩ := (attachedScan_series hseries).pushed hvalid
    rw [seriesScanInitGlobal_keepsRule_iff hbase hlabels, hmatchers]
    exact pushedMatchers_required_iff he

def jobSeries : ScanBindData :=
  { pushdownMode := true
    endpoint := "http://localhost:3100".toList
    labelColumns := ["job".toList]
    fnName := "loki series".toList
    endNs := 10000
    startNs := 10000 - nanosPerHour }

theorem jobSeries_bound : seriesTableBind "http://localhost:3100".toList ⟨[], [], [], [], []⟩
    ["job".toList] 10000 = some jobSeries := by
  decide

theorem tables_keepRule_job :
    KeepsRule Regex.reference
        (selectorRequired (pushdownComplexFilter .reference jobGet jobLogs
          [labelEquals 2 "api".toList]).1)
        (fun st ↦ some st.pager.logql)
        (scanInitGlobal (pushdownComplexFilter .reference jobGet jobLogs
          [labelEquals 2 "api".toList]).1 [0]) ∧
      KeepsRule Regex.reference
        (seriesSelectorRequired (pushdownComplexFilter .reference jobGet jobSeries
          [labelEquals 2 "api".toList]).1)
        (fun st ↦ st.request.params.lookup "match[]".toList)
        (seriesScanInitGlobal (pushdownComplexFilter .reference jobGet jobSeries
          [labelEquals 2 "api".toList]).1 [0]) := by
  have hasks : AsksForLabel .reference jobGet ["job".toList] [labelEquals 2 "api".toList] :=
    Or.inr ⟨_, List.mem_cons_self, "job".toList, .equals "api".toList, rfl, rfl⟩
  obtain ⟨hlogs, hseries⟩ := tables_keepRule_iff Database.reference_lawful.regex (by decide)
    jobLogs_bound jobSeries_bound [0]
  exact ⟨hlogs.mpr hasks, hseries.mpr hasks⟩

def jobDiffers : List Expression :=
  [.comparison .ne (.columnRef 2) (.constant (.varchar "x".toList))]

/-- `job <> 'x'` alone is sent to Loki, which refuses it. -/
theorem tables_break_rule :
    ¬ KeepsRule Regex.reference
        (selectorRequired (pushdownComplexFilter .reference jobGet jobLogs jobDiffers).1)
        (fun st ↦ some st.pager.logql)
        (scanInitGlobal (pushdownComplexFilter .reference jobGet jobLogs jobDiffers).1 [0]) ∧
      ¬ KeepsRule Regex.reference
        (seriesSelectorRequired (pushdownComplexFilter .reference jobGet jobSeries jobDiffers).1)
        (fun st ↦ st.request.params.lookup "match[]".toList)
        (seriesScanInitGlobal (pushdownComplexFilter .reference jobGet jobSeries jobDiffers).1
          [0]) := by
  have hlogs : (pushdownComplexFilter .reference jobGet jobLogs jobDiffers).1 =
      { jobLogs with pushedMatchers := [⟨"job".toList, .neq, "x".toList⟩] } := rfl
  have hseries : (pushdownComplexFilter .reference jobGet jobSeries jobDiffers).1 =
      { jobSeries with pushedMatchers := [⟨"job".toList, .neq, "x".toList⟩] } := rfl
  rw [hlogs, hseries]
  constructor
  · rw [scanInitGlobal_keepsRule_iff rfl (by decide) rfl]
    decide
  · rw [seriesScanInitGlobal_keepsRule_iff rfl (by decide)]
    decide

end Refusals

end DuckdbLoki
