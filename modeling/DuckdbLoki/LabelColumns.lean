import DuckdbLoki.Connection
import DuckdbLoki.Scan
import DuckdbLoki.StreamsResponse

namespace DuckdbLoki

structure HttpResponse where
  status : ℤ
  body : Str
  error : Str
deriving DecidableEq

structure HttpCall where
  endpoint : Str
  request : QueryRangeRequest
  headers : List (Str × Str)
  connectTimeoutS : ℕ
  readTimeoutS : ℕ
deriving DecidableEq

section Discovery

/-- The texts of a `data` array; an element that is not a string is skipped. -/
def parseStringArrayResponse (read : Str → Option Json) (body : Str) : Except Str (List Str) :=
  match read body with
  | none => .error ("Loki response is not valid JSON: ".toList ++ responseSnippet body 500)
  | some root =>
    match root.objGet "data".toList with
    | some (.array elems) => .ok (elems.filterMap Json.getStr)
    | _ =>
      .error ("Loki response missing array 'data' field: ".toList ++ responseSnippet body 500)

def labelNamesCall (endpoint : Str) (auth : AuthConfig) (connectTimeoutS readTimeoutS : ℕ) :
    HttpCall :=
  ⟨endpoint, buildLabelsRequest (-1) (-1), buildAuthHeaders auth, connectTimeoutS, readTimeoutS⟩

def keepLabelName (valid : List Str) (name : Str) : List Str :=
  if ¬ isValidLabelName name ∨ isReservedColumnName name then valid
  else if valid.any (ciEquals name) then valid
  else valid ++ [name]

def fetchLokiLabelNames (read : Str → Option Json) (response : HttpResponse) :
    Except Str (List Str) :=
  if response.error ≠ [] then
    .error ("ATTACH (TYPE loki): label auto-discovery request to Loki failed: ".toList ++
      response.error)
  else if response.status < 200 ∨ response.status ≥ 300 then
    .error ("ATTACH (TYPE loki): label auto-discovery got HTTP ".toList ++
      toDecimal response.status ++ ": ".toList ++ responseSnippet response.body 1000)
  else match parseStringArrayResponse read response.body with
    | .error message => .error ("ATTACH (TYPE loki): label auto-discovery: ".toList ++ message)
    | .ok discovered => .ok (discovered.foldl keepLabelName [])

end Discovery

section Columns

inductive ColumnType
  | timestampNs
  | varchar
  | stringMap
deriving DecidableEq

structure ColumnDefinition where
  name : Str
  type : ColumnType
deriving DecidableEq

/-- `ColumnList::AddColumn`: names are told apart without regard to case. -/
def addColumn (columns : List ColumnDefinition) (column : ColumnDefinition) :
    Except Str (List ColumnDefinition) :=
  if columns.any (fun c ↦ ciEquals c.name column.name) then
    .error ("Column with name ".toList ++ column.name ++ " already exists!".toList)
  else .ok (columns ++ [column])

def labelColumn (name : Str) : ColumnDefinition := ⟨name, .varchar⟩

def logsColumns (labelColumns : List Str) : List ColumnDefinition :=
  [⟨"timestamp".toList, .timestampNs⟩, ⟨"line".toList, .varchar⟩] ++
    labelColumns.map labelColumn ++
    [⟨"labels".toList, .stringMap⟩, ⟨"structured_metadata".toList, .stringMap⟩]

def buildLokiLogsColumns (labelColumns : List Str) (columns : List ColumnDefinition) :
    Except Str (List ColumnDefinition) := (logsColumns labelColumns).foldlM addColumn columns

def seriesColumns (labelColumns : List Str) : List ColumnDefinition :=
  labelColumns.map labelColumn ++ [⟨"labels".toList, .stringMap⟩]

def buildLokiSeriesColumns (labelColumns : List Str) (columns : List ColumnDefinition) :
    Except Str (List ColumnDefinition) := (seriesColumns labelColumns).foldlM addColumn columns

end Columns

section Promotable

structure Promotable (labelColumns : List Str) : Prop where
  valid : ∀ name ∈ labelColumns, isValidLabelName name = true
  unreserved : ∀ name ∈ labelColumns, isReservedColumnName name = false
  distinct : (labelColumns.map lower).Nodup

theorem ciEquals_iff {a b : Str} : ciEquals a b = true ↔ lower a = lower b := decide_eq_true_iff

theorem Promotable.nil : Promotable [] := ⟨nofun, nofun, List.nodup_nil⟩

theorem Promotable.snoc {names : List Str} {name : Str} (h : Promotable names)
    (hvalid : isValidLabelName name = true) (hunreserved : isReservedColumnName name = false)
    (hfresh : ¬ names.any (ciEquals name) = true) : Promotable (names ++ [name]) := by
  refine ⟨?_, ?_, ?_⟩
  · exact List.forall_mem_append.mpr ⟨h.valid, List.forall_mem_singleton.mpr hvalid⟩
  · exact List.forall_mem_append.mpr ⟨h.unreserved, List.forall_mem_singleton.mpr hunreserved⟩
  · rw [List.map_append, List.map_singleton, List.nodup_append]
    refine ⟨h.distinct, List.nodup_singleton _, ?_⟩
    intro a ha b hb heq
    obtain ⟨other, hother, hlower⟩ := List.mem_map.mp ha
    apply hfresh
    apply List.any_eq_true.mpr
    refine ⟨other, hother, ciEquals_iff.mpr ?_⟩
    rw [hlower, heq]
    exact (List.mem_singleton.mp hb).symm

theorem Promotable.keepLabelName {valid : List Str} (h : Promotable valid) (name : Str) :
    Promotable (keepLabelName valid name) := by
  unfold DuckdbLoki.keepLabelName
  split_ifs with hname hseen
  · exact h
  · exact h
  · rw [not_or, not_not, Bool.not_eq_true] at hname
    exact h.snoc hname.1 hname.2 hseen

theorem Promotable.foldl {valid : List Str} (h : Promotable valid) (names : List Str) :
    Promotable (names.foldl DuckdbLoki.keepLabelName valid) := by
  induction names generalizing valid with
  | nil => exact h
  | cons name names ih => exact ih (h.keepLabelName name)

theorem fetchLokiLabelNames_promotable {read : Str → Option Json} {response : HttpResponse}
    {names : List Str} (h : fetchLokiLabelNames read response = .ok names) :
    Promotable names := by
  unfold fetchLokiLabelNames at h
  split_ifs at h
  split at h
  · cases h
  · rw [← Except.ok.inj h]
    exact Promotable.nil.foldl _

def ColumnDefinition.key (c : ColumnDefinition) : Str := lower c.name

theorem foldlM_addColumn {columns added : List ColumnDefinition}
    (h : ((columns ++ added).map ColumnDefinition.key).Nodup) :
    added.foldlM addColumn columns = .ok (columns ++ added) := by
  induction added generalizing columns with
  | nil => rw [List.append_nil]; rfl
  | cons column added ih =>
    have hfresh : ¬ columns.any (fun c ↦ ciEquals c.name column.name) = true := by
      intro hany
      obtain ⟨c, hc, heq⟩ := List.any_eq_true.mp hany
      have hkey : c.key = column.key := ciEquals_iff.mp heq
      rw [List.map_append, List.map_cons] at h
      apply List.disjoint_of_nodup_append h (List.mem_map_of_mem hc)
      rw [hkey]
      exact List.mem_cons_self
    have hadd : addColumn columns column = .ok (columns ++ [column]) := if_neg hfresh
    rw [List.foldlM_cons, hadd]
    have hsplit : columns ++ column :: added = columns ++ [column] ++ added := by simp
    rw [hsplit] at h ⊢
    exact ih h

theorem eq_of_foldlM_addColumn {columns added result : List ColumnDefinition}
    (h : added.foldlM addColumn columns = .ok result) : result = columns ++ added := by
  induction added generalizing columns with
  | nil => rw [List.append_nil]; exact (Except.ok.inj h).symm
  | cons column added ih =>
    rw [List.foldlM_cons] at h
    unfold addColumn at h
    split_ifs at h
    · cases h
    · have heq : result = columns ++ [column] ++ added := ih h
      rwa [List.append_assoc] at heq

def fixedColumnNames : List Str :=
  ["timestamp".toList, "line".toList, "labels".toList, "structured_metadata".toList]

theorem isReservedColumnName_eq (name : Str) :
    isReservedColumnName name = fixedColumnNames.any (ciEquals name) := by
  simp only [isReservedColumnName, fixedColumnNames, List.any_cons, List.any_nil, Bool.or_false,
    Bool.or_assoc]

theorem Promotable.notMem_fixed {labelColumns : List Str} (h : Promotable labelColumns) :
    ∀ fixed ∈ fixedColumnNames, lower fixed ∉ labelColumns.map lower := by
  intro fixed hfixed hmem
  obtain ⟨name, hname, heq⟩ := List.mem_map.mp hmem
  have hunreserved := h.unreserved name hname
  rw [isReservedColumnName_eq, List.any_eq_false] at hunreserved
  exact hunreserved fixed hfixed (ciEquals_iff.mpr heq)

theorem map_key_labelColumn (labelColumns : List Str) :
    (labelColumns.map labelColumn).map ColumnDefinition.key = labelColumns.map lower :=
  List.map_map

theorem Promotable.columns_nodup {labelColumns : List Str} (h : Promotable labelColumns)
    (before after : List ColumnDefinition)
    (hfixed : ∀ c ∈ before ++ after, c.name ∈ fixedColumnNames)
    (hnodup : ((before ++ after).map ColumnDefinition.key).Nodup) :
    ((before ++ labelColumns.map labelColumn ++ after).map ColumnDefinition.key).Nodup := by
  have hapart : ∀ cs : List ColumnDefinition, (∀ c ∈ cs, c.name ∈ fixedColumnNames) →
      List.Disjoint (labelColumns.map lower) (cs.map ColumnDefinition.key) := by
    intro cs hcs name hlabel hcolumn
    obtain ⟨c, hc, heq⟩ := List.mem_map.mp hcolumn
    rw [← heq] at hlabel
    exact h.notMem_fixed c.name (hcs c hc) hlabel
  obtain ⟨hbefore, hafter⟩ := List.forall_mem_append.mp hfixed
  rw [List.map_append, List.nodup_append'] at hnodup
  obtain ⟨hnodup₁, hnodup₂, hdisjoint⟩ := hnodup
  rw [List.append_assoc, List.map_append, List.map_append, map_key_labelColumn,
    List.nodup_append', List.nodup_append', List.disjoint_append_right]
  exact ⟨hnodup₁, ⟨h.distinct, hnodup₂, hapart after hafter⟩, (hapart before hbefore).symm,
    hdisjoint⟩

theorem Promotable.buildLokiLogsColumns {labelColumns : List Str} (h : Promotable labelColumns) :
    buildLokiLogsColumns labelColumns [] = .ok (logsColumns labelColumns) := by
  apply foldlM_addColumn
  apply h.columns_nodup [_, _] [_, _]
  · decide
  · decide

theorem Promotable.buildLokiSeriesColumns {labelColumns : List Str} (h : Promotable labelColumns) :
    buildLokiSeriesColumns labelColumns [] = .ok (seriesColumns labelColumns) := by
  apply foldlM_addColumn
  apply h.columns_nodup [] [_]
  · decide
  · decide

end Promotable

end DuckdbLoki
