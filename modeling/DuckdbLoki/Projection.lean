import DuckdbLoki.LabelColumns
import DuckdbLoki.Translation

namespace DuckdbLoki

section Schema

/-- The body of the loop of `LokiResolveCommon` over `labels`; an element may be
`NULL`. -/
def promoteLabel (fn : Str) (labelColumns : List Str) : Option Str → Except Str (List Str)
  | none => .error (fn ++ " 'labels' must not contain NULL entries".toList)
  | some label =>
    if ¬ isValidLabelName label then
      .error (fn ++ ": invalid label name '".toList ++ label ++
        "' in 'labels'; label names must match [a-zA-Z_][a-zA-Z0-9_]*".toList)
    else if isReservedColumnName label then
      .error (fn ++ ": label '".toList ++ label ++
        ("' cannot be promoted \u00e2\u0080\u0094 that name is already one of the fixed output " ++
          "columns (timestamp, line, labels, structured_metadata); read it from the labels MAP " ++
          "instead, e.g. labels['").toList ++ label ++ "']".toList)
    else if labelColumns.any (ciEquals label) then
      .error (fn ++ ": duplicate label '".toList ++ label ++ "' in 'labels'".toList)
    else .ok (labelColumns ++ [label])

def promoteLabels (fn : Str) (labels : Option (List (Option Str))) : Except Str (List Str) :=
  (labels.getD []).foldlM (promoteLabel fn) []

def declareSchema (labelColumns : List Str) : List ColumnType × List Str :=
  ([.timestampNs, .varchar] ++ labelColumns.map (fun _ ↦ .varchar) ++ [.stringMap, .stringMap],
    schemaNames labelColumns)

theorem promoteLabel_ok {fn label : Str} {names : List Str} (h : Promotable (names ++ [label])) :
    promoteLabel fn names (some label) = .ok (names ++ [label]) := by
  have hmem : label ∈ names ++ [label] := List.mem_append_right _ List.mem_cons_self
  have hunreserved : ¬ isReservedColumnName label = true := by
    rw [h.unreserved label hmem]
    exact Bool.false_ne_true
  have hfresh : ¬ names.any (ciEquals label) = true := by
    intro hany
    obtain ⟨other, hother, heq⟩ := List.any_eq_true.mp hany
    have hdistinct := h.distinct
    rw [List.map_append, List.map_singleton] at hdistinct
    apply List.disjoint_of_nodup_append hdistinct (List.mem_map_of_mem hother)
    rw [ciEquals_iff.mp heq]
    exact List.mem_cons_self
  unfold promoteLabel
  dsimp only
  rw [if_neg (not_not.mpr (h.valid label hmem)), if_neg hunreserved, if_neg hfresh]

theorem Promotable.of_append {names names' : List Str} (h : Promotable (names ++ names')) :
    Promotable names := by
  refine ⟨?_, ?_, ?_⟩
  · exact fun name hname ↦ h.valid name (List.mem_append_left _ hname)
  · exact fun name hname ↦ h.unreserved name (List.mem_append_left _ hname)
  · have hdistinct := h.distinct
    rw [List.map_append] at hdistinct
    exact hdistinct.of_append_left

theorem foldlM_promoteLabel {fn : Str} {names labels : List Str}
    (h : Promotable (names ++ labels)) :
    (labels.map some).foldlM (promoteLabel fn) names = .ok (names ++ labels) := by
  induction labels generalizing names with
  | nil =>
    rw [List.append_nil]
    rfl
  | cons label labels ih =>
    have hsplit : names ++ label :: labels = names ++ [label] ++ labels := List.append_cons _ _ _
    rw [hsplit] at h ⊢
    rw [List.map_cons, List.foldlM_cons, promoteLabel_ok h.of_append]
    exact ih h

theorem promoteLabel_promotable {fn : Str} {names names' : List Str} {label : Option Str}
    (h : Promotable names) (hok : promoteLabel fn names label = .ok names') :
    Promotable names' := by
  cases label with
  | none => cases hok
  | some label =>
    unfold promoteLabel at hok
    dsimp only at hok
    split_ifs at hok with hvalid hreserved hseen
    rw [← Except.ok.inj hok]
    exact h.snoc hvalid (Bool.eq_false_of_not_eq_true hreserved) hseen

theorem promoteLabels_promotable {fn : Str} {labels : Option (List (Option Str))}
    {labelColumns : List Str} (h : promoteLabels fn labels = .ok labelColumns) :
    Promotable labelColumns := by
  unfold promoteLabels at h
  have hgen : ∀ (ls : List (Option Str)) (names names' : List Str), Promotable names →
      ls.foldlM (promoteLabel fn) names = .ok names' → Promotable names' := by
    intro ls
    induction ls with
    | nil =>
      intro names names' hnames hok
      exact Except.ok.inj hok ▸ hnames
    | cons l ls ih =>
      intro names names' hnames hok
      rw [List.foldlM_cons] at hok
      cases hl : promoteLabel fn names l with
      | error message =>
        rw [hl] at hok
        cases hok
      | ok next =>
        rw [hl] at hok
        exact ih next names' (promoteLabel_promotable hnames hl) hok
  exact hgen _ _ _ .nil h

theorem logsColumns_types (labelColumns : List Str) :
    (logsColumns labelColumns).map ColumnDefinition.type = (declareSchema labelColumns).1 := by
  simp [logsColumns, declareSchema, labelColumn, Function.comp_def]

theorem logsColumns_names (labelColumns : List Str) :
    (logsColumns labelColumns).map ColumnDefinition.name = (declareSchema labelColumns).2 := by
  simp [logsColumns, declareSchema, schemaNames, labelColumn, Function.comp_def]

end Schema

section Emit

def lokiMapFromStrings (m : StringMap) : Value := .map m.pairs

variable (virtual : ℕ → Bool) (labelColumns : List Str)

/-- The value `LokiScanFunction` writes for a source column; `virtual` tells the
row id and the virtual columns of the database. -/
def emitColumn (row : LokiRow) (src : ℕ) : Value :=
  let labelsMapCol := 2 + labelColumns.length
  if virtual src then .null
  else if src = 0 then .temporal .timestampNs row.tsNs
  else if src = 1 then .varchar row.line
  else if src < labelsMapCol then
    ((labelColumns[src - 2]?).map (labelValue row.labels)).getD .null
  else if src = labelsMapCol then lokiMapFromStrings row.labels
  else lokiMapFromStrings row.structuredMetadata

def emitRow (columnIds : List ℕ) (row : LokiRow) : List Value :=
  columnIds.map (emitColumn virtual labelColumns row)

def emitSeriesColumn (row : StringMap) (src : ℕ) : Value :=
  let labelsMapCol := labelColumns.length
  if virtual src then .null
  else if src < labelsMapCol then
    ((labelColumns[src]?).map (labelValue row)).getD .null
  else lokiMapFromStrings row

def emitSeriesRow (columnIds : List ℕ) (row : StringMap) : List Value :=
  columnIds.map (emitSeriesColumn virtual labelColumns row)

end Emit

section Fields

def LokiRow.field (row : LokiRow) (name : Str) : Value :=
  if name = "timestamp".toList then .temporal .timestampNs row.tsNs
  else if name = "line".toList then .varchar row.line
  else if name = "labels".toList then .map row.labels.pairs
  else if name = "structured_metadata".toList then .map row.structuredMetadata.pairs
  else labelValue row.labels name

def seriesField (row : StringMap) (name : Str) : Value :=
  if name = "labels".toList then .map row.pairs else labelValue row name

def Value.HasType : Value → ColumnType → Prop
  | .null, _ => True
  | .temporal .timestampNs _, .timestampNs => True
  | .varchar _, .varchar => True
  | .map _, .stringMap => True
  | _, _ => False

theorem hasType_labelValue (labels : StringMap) (name : Str) :
    (labelValue labels name).HasType .varchar := by
  unfold labelValue
  cases labels.find name with
  | none => exact trivial
  | some v => exact trivial

theorem ne_fixed {name fixed : Str} (h : isReservedColumnName name = false)
    (hfixed : fixed ∈ fixedColumnNames) : name ≠ fixed := by
  intro heq
  rw [isReservedColumnName_eq, List.any_eq_false] at h
  apply h fixed hfixed
  rw [heq]
  exact ciEquals_iff.mpr rfl

theorem LokiRow.field_label (row : LokiRow) {name : Str} (h : isReservedColumnName name = false) :
    row.field name = labelValue row.labels name := by
  unfold LokiRow.field
  rw [if_neg (ne_fixed h (by decide)), if_neg (ne_fixed h (by decide)),
    if_neg (ne_fixed h (by decide)), if_neg (ne_fixed h (by decide))]

theorem seriesField_label (row : StringMap) {name : Str} (h : isReservedColumnName name = false) :
    seriesField row name = labelValue row name := if_neg (ne_fixed h (by decide))

end Fields

section Agreement

variable {virtual : ℕ → Bool} {labelColumns : List Str} {src : ℕ} {column : ColumnDefinition}

theorem getElem?_labelColumns {after : List ColumnDefinition} {i : ℕ}
    (h : (labelColumns.map labelColumn ++ after)[i]? = some column) :
    (∃ name, i < labelColumns.length ∧ labelColumns[i]? = some name ∧
      column = labelColumn name) ∨
    (labelColumns.length ≤ i ∧ after[i - labelColumns.length]? = some column) := by
  rw [List.getElem?_append, List.length_map] at h
  split_ifs at h with hlt
  · left
    rw [List.getElem?_map] at h
    obtain ⟨name, hname, hcolumn⟩ := Option.map_eq_some_iff.mp h
    exact ⟨name, hlt, hname, hcolumn.symm⟩
  · right
    exact ⟨Nat.le_of_not_lt hlt, h⟩

theorem emitColumn_logs (hunreserved : ∀ name ∈ labelColumns, isReservedColumnName name = false)
    (row : LokiRow) (hreal : virtual src = false)
    (hcolumn : (logsColumns labelColumns)[src]? = some column) :
    emitColumn virtual labelColumns row src = row.field column.name ∧
      (row.field column.name).HasType column.type := by
  unfold emitColumn
  rw [hreal, if_neg Bool.false_ne_true]
  match src with
  | 0 =>
    obtain rfl := Option.some.inj hcolumn
    exact ⟨rfl, trivial⟩
  | 1 =>
    obtain rfl := Option.some.inj hcolumn
    exact ⟨rfl, trivial⟩
  | i + 2 =>
    rw [if_neg (Nat.succ_ne_zero _), if_neg (by omega), Nat.add_sub_cancel]
    rcases getElem?_labelColumns (i := i) hcolumn with ⟨name, hlt, hname, hcol⟩ | ⟨hle, hfixed⟩
    · rw [if_pos (by omega), hname, hcol]
      have hfield : row.field (labelColumn name).name = labelValue row.labels name :=
        row.field_label (hunreserved name (List.mem_of_getElem? hname))
      rw [hfield]
      exact ⟨rfl, hasType_labelValue _ _⟩
    · rw [if_neg (by omega)]
      obtain ⟨k, hk⟩ := Nat.exists_eq_add_of_le hle
      rw [hk, Nat.add_sub_cancel_left] at hfixed
      match k with
      | 0 =>
        obtain rfl := Option.some.inj hfixed
        rw [if_pos (by omega)]
        exact ⟨rfl, trivial⟩
      | 1 =>
        obtain rfl := Option.some.inj hfixed
        rw [if_neg (by omega)]
        exact ⟨rfl, trivial⟩
      | k + 2 => cases hfixed

theorem emitSeriesColumn_series
    (hunreserved : ∀ name ∈ labelColumns, isReservedColumnName name = false)
    (row : StringMap) (hreal : virtual src = false)
    (hcolumn : (seriesColumns labelColumns)[src]? = some column) :
    emitSeriesColumn virtual labelColumns row src = seriesField row column.name ∧
      (seriesField row column.name).HasType column.type := by
  unfold emitSeriesColumn
  rw [hreal, if_neg Bool.false_ne_true]
  rcases getElem?_labelColumns hcolumn with ⟨name, hlt, hname, hcol⟩ | ⟨hle, hfixed⟩
  · rw [if_pos hlt, hname, hcol]
    have hfield : seriesField row (labelColumn name).name = labelValue row name :=
      seriesField_label row (hunreserved name (List.mem_of_getElem? hname))
    rw [hfield]
    exact ⟨rfl, hasType_labelValue _ _⟩
  · rw [if_neg (Nat.not_lt.mpr hle)]
    obtain ⟨k, hk⟩ := Nat.exists_eq_add_of_le hle
    rw [hk, Nat.add_sub_cancel_left] at hfixed
    match k with
    | 0 =>
      obtain rfl := Option.some.inj hfixed
      exact ⟨rfl, trivial⟩
    | k + 1 => cases hfixed

/-- On the columns of the schema the emission is the reading of a source column
that the translation of filters is about. -/
theorem emitColumn_eq_sourceValue (row : LokiRow) (hreal : virtual src = false)
    (hlt : src < (logsColumns labelColumns).length) :
    emitColumn virtual labelColumns row src = sourceValue labelColumns row src := by
  have hlen : (logsColumns labelColumns).length = 4 + labelColumns.length := by
    simp [logsColumns]
    omega
  unfold emitColumn sourceValue
  rw [hreal, if_neg Bool.false_ne_true]
  split_ifs
  · rfl
  · rfl
  · cases labelColumns[src - 2]? with
    | none => rfl
    | some name => rfl
  · rfl
  · rfl
  · omega

/-- Slot by slot a row holds the fields its schema names, and `NULL` for the
columns that are virtual. -/
structure SlotsAgree (virtual : ℕ → Bool) (columns : List ColumnDefinition)
    (columnIds : List ℕ) (field : Str → Value) (slots : List Value) : Prop where
  length_eq : slots.length = columnIds.length
  virtual_null : ∀ i src : ℕ, columnIds[i]? = some src → virtual src = true → slots[i]? = some .null
  field_eq : ∀ (i src : ℕ) (column : ColumnDefinition), columnIds[i]? = some src →
    columns[src]? = some column →
    slots[i]? = some (field column.name) ∧ (field column.name).HasType column.type

theorem slotsAgree_map {columns : List ColumnDefinition} {columnIds : List ℕ}
    {field : Str → Value} {emit : ℕ → Value} (hnull : ∀ src, virtual src = true → emit src = .null)
    (hfield : ∀ src column, columns[src]? = some column →
      emit src = field column.name ∧ (field column.name).HasType column.type) :
    SlotsAgree virtual columns columnIds field (columnIds.map emit) := by
  refine ⟨List.length_map _, ?_, ?_⟩
  · intro i src hsrc hvirtual
    rw [List.getElem?_map, hsrc, ← hnull src hvirtual]
    rfl
  · intro i src column hsrc hcolumn
    obtain ⟨hemit, htype⟩ := hfield src column hcolumn
    rw [List.getElem?_map, hsrc, ← hemit]
    rw [← hemit] at htype
    exact ⟨rfl, htype⟩

theorem emitRow_slots (hunreserved : ∀ name ∈ labelColumns, isReservedColumnName name = false)
    (hvirtual : ∀ src < (logsColumns labelColumns).length, virtual src = false)
    (columnIds : List ℕ) (row : LokiRow) :
    SlotsAgree virtual (logsColumns labelColumns) columnIds row.field
      (emitRow virtual labelColumns columnIds row) := by
  apply slotsAgree_map
  · intro src hsrc
    exact if_pos hsrc
  · intro src column hcolumn
    have hlt := (List.getElem?_eq_some_iff.mp hcolumn).1
    exact emitColumn_logs hunreserved row (hvirtual src hlt) hcolumn

theorem emitSeriesRow_slots
    (hunreserved : ∀ name ∈ labelColumns, isReservedColumnName name = false)
    (hvirtual : ∀ src < (seriesColumns labelColumns).length, virtual src = false)
    (columnIds : List ℕ) (row : StringMap) :
    SlotsAgree virtual (seriesColumns labelColumns) columnIds (seriesField row)
      (emitSeriesRow virtual labelColumns columnIds row) := by
  apply slotsAgree_map
  · intro src hsrc
    exact if_pos hsrc
  · intro src column hcolumn
    have hlt := (List.getElem?_eq_some_iff.mp hcolumn).1
    exact emitSeriesColumn_series hunreserved row (hvirtual src hlt) hcolumn

/-- The three schemas are built from the labels alike, and both scans emit what
they declare, under every projection. -/
theorem projection_agrees (h : Promotable labelColumns)
    (hvirtual : ∀ src < (logsColumns labelColumns).length, virtual src = false)
    (columnIds : List ℕ) (fn : Str) :
    promoteLabels fn (some (labelColumns.map some)) = .ok labelColumns ∧
      buildLokiLogsColumns labelColumns [] = .ok (logsColumns labelColumns) ∧
      declareSchema labelColumns = ((logsColumns labelColumns).map ColumnDefinition.type,
        (logsColumns labelColumns).map ColumnDefinition.name) ∧
      buildLokiSeriesColumns labelColumns [] = .ok (seriesColumns labelColumns) ∧
      (∀ row : LokiRow, SlotsAgree virtual (logsColumns labelColumns) columnIds row.field
        (emitRow virtual labelColumns columnIds row)) ∧
      ∀ row : StringMap, SlotsAgree virtual (seriesColumns labelColumns) columnIds
        (seriesField row) (emitSeriesRow virtual labelColumns columnIds row) := by
  refine ⟨foldlM_promoteLabel (show Promotable ([] ++ labelColumns) from h),
    h.buildLokiLogsColumns, ?_,
    h.buildLokiSeriesColumns, emitRow_slots h.unreserved hvirtual columnIds,
    emitSeriesRow_slots h.unreserved ?_ columnIds⟩
  · rw [logsColumns_types, logsColumns_names]
  · intro src hsrc
    apply hvirtual
    apply Nat.lt_of_lt_of_le hsrc
    simp [seriesColumns, logsColumns]

theorem projection_agrees_sample :
    SlotsAgree (fun id ↦ decide (9223372036854775808 ≤ id)) (logsColumns ["job".toList])
      [3, 0, 18446744073709551615, 0, 2]
      (LokiRow.field ⟨7, "up".toList, ⟨[("job".toList, "api".toList)], by decide⟩, .empty⟩)
      [.map [("job".toList, "api".toList)], .temporal .timestampNs 7, .null,
        .temporal .timestampNs 7, .varchar "api".toList] := by
  have hlabels : Promotable ["job".toList] := ⟨by decide, by decide, by decide⟩
  have hvirtual : ∀ src < (logsColumns ["job".toList]).length,
      decide (9223372036854775808 ≤ src) = false := by
    decide
  have hagrees := projection_agrees hlabels hvirtual [3, 0, 18446744073709551615, 0, 2]
    "loki".toList
  exact hagrees.2.2.2.2.1 ⟨7, "up".toList, ⟨[("job".toList, "api".toList)], by decide⟩, .empty⟩

end Agreement

end DuckdbLoki
