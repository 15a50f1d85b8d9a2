import DuckdbLoki.Auth
import DuckdbLoki.Expression
import DuckdbLoki.LogQL
import DuckdbLoki.Pager

namespace DuckdbLoki

def nanosPerHour : ℤ := 3600 * 1000 * 1000 * 1000

/-- What a scan is bound with. The sentinels of the pushed bounds mean that
there is none. -/
structure ScanBindData where
  endpoint : Str := []
  query : Str := []
  startNs : ℤ := 0
  endNs : ℤ := 0
  limit : ℤ := 5000
  direction : Str := "backward".toList
  auth : AuthConfig := ⟨[], [], [], [], []⟩
  labelColumns : List Str := []
  fnName : Str := "loki_scan".toList
  selectorHint : Str := ("pass selector := '\x7bjob=\"api\"\x7d' or add a WHERE equality/IN on a " ++
    "promoted label column (labels := [...])").toList
  pushdownMode : Bool := false
  baseSelector : Str := []
  pushedMatchers : List LabelMatcher := []
  pushedLineFilters : List LineFilter := []
  hasParamStart : Bool := false
  hasParamEnd : Bool := false
  pushedStartNs : ℤ := int64Min
  pushedEndNs : ℤ := int64Max
deriving DecidableEq

section Schema

def ciEquals (a b : Str) : Bool := a.map Char.toLower = b.map Char.toLower

def isReservedColumnName (name : Str) : Bool :=
  ciEquals name "timestamp".toList || ciEquals name "line".toList ||
    ciEquals name "labels".toList || ciEquals name "structured_metadata".toList

def schemaNames (labelColumns : List Str) : List Str :=
  ["timestamp".toList, "line".toList] ++ labelColumns ++
    ["labels".toList, "structured_metadata".toList]

/-- The value of a source column; an index past the schema is a row id or a
virtual column. -/
def sourceValue (labelColumns : List Str) (r : LokiRow) (src : ℕ) : Value :=
  if src = 0 then .temporal .timestampNs r.tsNs
  else if src = 1 then .varchar r.line
  else if src < 2 + labelColumns.length then
    match (labelColumns[src - 2]?).bind r.labels.find with
    | some v => .varchar v
    | none => .null
  else if src = 2 + labelColumns.length then .map r.labels.pairs
  else if src = 3 + labelColumns.length then .map r.structuredMetadata.pairs
  else .null

/-- A planned scan: the source columns it projects and the column names. -/
structure LogicalGet where
  columnIds : List ℕ
  names : List Str

def LogicalGet.row (get : LogicalGet) (labelColumns : List Str) (r : LokiRow) (i : ℕ) : Value :=
  match get.columnIds[i]? with
  | some src => sourceValue labelColumns r src
  | none => .null

end Schema

section Translate

variable (db : Database) (get : LogicalGet)

def stripCast : Expression → Expression
  | .cast _ child => stripCast child
  | e => e

def resolveColumnName (e : Expression) : Option Str :=
  match stripCast e with
  | .columnRef proj => (get.columnIds[proj]?).bind (fun storage ↦ get.names[storage]?)
  | _ => none

def tryValueToEpochNsExact (v : Value) : Option ℤ :=
  match db.cast (.temporal .timestampNs) v with
  | some (.temporal _ ns) => some ns
  | _ => none

def isLabelColumn (bind : ScanBindData) (name : Str) : Bool := name ∈ bind.labelColumns

def addStartBound (bind : ScanBindData) (ns : ℤ) : ScanBindData :=
  { bind with pushedStartNs := max bind.pushedStartNs ns }

def addEndBound (bind : ScanBindData) (ns : ℤ) : ScanBindData :=
  { bind with pushedEndNs := min bind.pushedEndNs ns }

def comparisonSides (op : CompareOp) (left right : Expression) :
    Option (CompareOp × Str × Value) :=
  match resolveColumnName get left, evalConstant db right with
  | some name, some v => some (op, name, v)
  | _, _ =>
    match resolveColumnName get right, evalConstant db left with
    | some name, some v => some (op.flip, name, v)
    | _, _ => none

/-- Narrow the window by a comparison of the timestamp. The end is exclusive,
so an inclusive bound is moved up by one, where that is possible. -/
def pushTimeBound (bind : ScanBindData) (op : CompareOp) (ns : ℤ) : ScanBindData :=
  match op with
  | .gt | .ge => addStartBound bind ns
  | .lt => addEndBound bind ns
  | .le => if ns ≠ int64Max then addEndBound bind (ns + 1) else bind
  | .eq => if ns ≠ int64Max then addEndBound (addStartBound bind ns) (ns + 1) else bind
  | _ => bind

def pushMatcher (bind : ScanBindData) (m : LabelMatcher) : ScanBindData :=
  { bind with pushedMatchers := bind.pushedMatchers ++ [m] }

def pushLineFilter (bind : ScanBindData) (f : LineFilter) : ScanBindData :=
  { bind with pushedLineFilters := bind.pushedLineFilters ++ [f] }

/-- Push what a comparison allows; the flag tells whether it may be erased. -/
def tryComparison (bind : ScanBindData) (op : CompareOp) (left right : Expression) :
    ScanBindData × Bool :=
  match comparisonSides db get op left right with
  | none => (bind, false)
  | some (op, name, v) =>
    if name = "timestamp".toList then
      match tryValueToEpochNsExact db v with
      | none => (bind, false)
      | some ns => (pushTimeBound bind op ns, false)
    else if isLabelColumn bind name then
      match op with
      | .eq => (pushMatcher bind ⟨name, .eq, db.toText v⟩, true)
      | .ne => (pushMatcher bind ⟨name, .neq, db.toText v⟩, false)
      | _ => (bind, false)
    else (bind, false)

def appendMember (regex : Str) (member : Str) : Str :=
  (if regex ≠ [] then regex ++ ['|'] else regex) ++ regexEscapeLiteral member

def inListRegex (members : List Str) : Str := members.foldl appendMember []

def constantMembers : List Expression → Option (List Value)
  | [] => some []
  | e :: es => (evalConstant db e).bind (fun v ↦ (constantMembers es).map (v :: ·))

def tryInList (bind : ScanBindData) (type : OperatorType) (children : List Expression) :
    ScanBindData × Bool :=
  match type, children with
  | .isIn, column :: member :: members =>
    match resolveColumnName get column with
    | none => (bind, false)
    | some name =>
      if ¬ isLabelColumn bind name then (bind, false)
      else match constantMembers db (member :: members) with
        | none => (bind, false)
        | some values =>
          (pushMatcher bind ⟨name, .re, inListRegex (values.map db.toText)⟩, true)
  | _, _ => (bind, false)

def negateLineOp : LineOp → LineOp
  | .contains => .notContains
  | .notContains => .contains
  | .matches => .notMatches
  | .notMatches => .matches

def lineFilterOf (fname : Str) (pattern : Str) : Option LineFilter :=
  if fname = "regexp_matches".toList then some ⟨.matches, pattern⟩
  else if fname = "contains".toList then some ⟨.contains, pattern⟩
  else if fname = "prefix".toList then some ⟨.matches, '^' :: regexEscapeLiteral pattern⟩
  else if fname = "suffix".toList then some ⟨.matches, regexEscapeLiteral pattern ++ ['$']⟩
  else (tryLikeToSubstring pattern).map (⟨.contains, ·⟩)

def lineFunctions : List Str :=
  ["~~".toList, "!~~".toList, "regexp_matches".toList, "contains".toList, "prefix".toList,
    "suffix".toList]

def tryFunction (bind : ScanBindData) (fname : Str) (children : List Expression)
    (negated : Bool) : ScanBindData × Bool :=
  match children with
  | [column, constant] =>
    if fname ∉ lineFunctions then (bind, false)
    else match resolveColumnName get column, evalConstant db constant with
      | some name, some pattern =>
        if name ≠ "line".toList then (bind, false)
        else match lineFilterOf fname (db.toText pattern) with
          | none => (bind, false)
          | some f =>
            let op := if xor negated (fname = "!~~".toList) then negateLineOp f.op else f.op
            (pushLineFilter bind ⟨op, f.value⟩, true)
      | _, _ => (bind, false)
  | _ => (bind, false)

def tryFilter (bind : ScanBindData) : Expression → ScanBindData × Bool
  | .operator .not [.function fname children] => tryFunction db get bind fname children true
  | .operator type children => tryInList db get bind type children
  | .comparison op left right => tryComparison db get bind op left right
  | .function fname children => tryFunction db get bind fname children false
  | _ => (bind, false)

def pushFilter (st : ScanBindData × List Expression) (filter : Expression) :
    ScanBindData × List Expression :=
  let (bind, consumed) := tryFilter db get st.1 filter
  (bind, if consumed then st.2 else st.2 ++ [filter])

def pushdownComplexFilter (bind : ScanBindData) (filters : List Expression) :
    ScanBindData × List Expression :=
  filters.foldl (pushFilter db get) (bind, [])

end Translate

section Accepts

def ScanBindData.Accepts (engine : Regex.Engine) (bind : ScanBindData) (r : LokiRow) : Prop :=
  (∀ m ∈ bind.pushedMatchers, m.accepts engine r.labels = true) ∧
    ∀ f ∈ bind.pushedLineFilters, f.accepts engine r.line = true

instance (engine : Regex.Engine) (bind : ScanBindData) (r : LokiRow) :
    Decidable (bind.Accepts engine r) := inferInstanceAs (Decidable (_ ∧ _))

theorem accepts_pushMatcher {engine : Regex.Engine} {bind : ScanBindData} {m : LabelMatcher}
    {r : LokiRow} : (pushMatcher bind m).Accepts engine r ↔
      bind.Accepts engine r ∧ m.accepts engine r.labels = true := by
  simp only [ScanBindData.Accepts, pushMatcher, List.forall_mem_append, List.forall_mem_singleton]
  exact and_right_comm

theorem accepts_pushLineFilter {engine : Regex.Engine} {bind : ScanBindData} {f : LineFilter}
    {r : LokiRow} : (pushLineFilter bind f).Accepts engine r ↔
      bind.Accepts engine r ∧ f.accepts engine r.line = true := by
  simp only [ScanBindData.Accepts, pushLineFilter, List.forall_mem_append,
    List.forall_mem_singleton]
  exact and_assoc.symm

theorem pushTimeBound_keeps (bind : ScanBindData) (op : CompareOp) (ns : ℤ) :
    pushTimeBound bind op ns = { bind with
      pushedStartNs := (pushTimeBound bind op ns).pushedStartNs
      pushedEndNs := (pushTimeBound bind op ns).pushedEndNs } := by
  cases op with
  | le | eq =>
    simp only [pushTimeBound]
    split_ifs <;> rfl
  | _ => rfl

theorem pushTimeBound_frame (bind : ScanBindData) (op : CompareOp) (ns : ℤ) :
    (pushTimeBound bind op ns).pushedMatchers = bind.pushedMatchers ∧
      (pushTimeBound bind op ns).pushedLineFilters = bind.pushedLineFilters ∧
      (pushTimeBound bind op ns).labelColumns = bind.labelColumns := by
  rw [pushTimeBound_keeps]
  exact ⟨rfl, rfl, rfl⟩

end Accepts

section Init

/-- The default window ends now and spans an hour; an explicit bound replaces
its side. There is no result where the default start overflows. -/
def resolveWindow (bind : ScanBindData) (nowNs : ℤ) (start stop : Option ℤ) :
    Option ScanBindData :=
  (checked (nowNs - nanosPerHour)).map (fun hourAgo ↦
    { bind with
      startNs := start.getD hourAgo
      endNs := stop.getD nowNs
      hasParamStart := bind.hasParamStart || start.isSome
      hasParamEnd := bind.hasParamEnd || stop.isSome })

def logsTableBind (endpoint : Str) (auth : AuthConfig) (labelColumns : List Str) (nowNs : ℤ) :
    Option ScanBindData :=
  (checked (nowNs - nanosPerHour)).map (fun hourAgo ↦
    { pushdownMode := true
      baseSelector := []
      endpoint := endpoint
      auth := auth
      labelColumns := labelColumns
      fnName := "loki logs".toList
      selectorHint := "add a WHERE equality/IN on a label column, e.g. WHERE job = 'api'".toList
      endNs := nowNs
      startNs := hourAgo })

def effectiveStart (bind : ScanBindData) : ℤ :=
  if bind.pushdownMode ∧ bind.pushedStartNs ≠ int64Min then
    if bind.hasParamStart then max bind.startNs bind.pushedStartNs else bind.pushedStartNs
  else bind.startNs

def effectiveEnd (bind : ScanBindData) : ℤ :=
  if bind.pushdownMode ∧ bind.pushedEndNs ≠ int64Max then
    if bind.hasParamEnd then min bind.endNs bind.pushedEndNs else bind.pushedEndNs
  else bind.endNs

def effectiveQuery (bind : ScanBindData) : Str :=
  if bind.pushdownMode then
    buildSelectorQuery bind.baseSelector bind.pushedMatchers bind.pushedLineFilters
  else bind.query

structure ScanGlobalState where
  endpoint : Str
  headers : List (Str × Str)
  pager : StreamPager
  columnIds : List ℕ
deriving DecidableEq

/-- The text of the mandatory-selector error; its dash is in UTF-8. -/
def selectorRequired (bind : ScanBindData) : Str :=
  bind.fnName ++ ": a stream selector is required \u00e2\u0080\u0094 ".toList ++ bind.selectorHint

def scanInitGlobal (bind : ScanBindData) (columnIds : List ℕ) : Except Str ScanGlobalState :=
  if bind.pushdownMode ∧ (effectiveQuery bind).take 2 = "\x7b\x7d".toList then
    .error (selectorRequired bind)
  else
    .ok {
      endpoint := bind.endpoint
      headers := buildAuthHeaders bind.auth ++
        [("X-Loki-Response-Encoding-Flags".toList, "categorize-labels".toList)]
      pager := StreamPager.new (effectiveQuery bind) (effectiveStart bind) (effectiveEnd bind)
        bind.direction bind.limit defaultPerRequestCap
      columnIds := columnIds }

end Init

end DuckdbLoki
