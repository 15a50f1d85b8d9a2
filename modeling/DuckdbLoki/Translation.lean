import DuckdbLoki.Casts
import DuckdbLoki.Scan

namespace DuckdbLoki

/-- A planned scan names its columns as the schema does, and no promoted label
takes the name of a fixed column. -/
structure Planned (get : LogicalGet) (labelColumns : List Str) : Prop where
  names : get.names = schemaNames labelColumns
  unreserved : ∀ l ∈ labelColumns, isReservedColumnName l = false

section Columns

def labelValue (labels : StringMap) (name : Str) : Value :=
  match labels.find name with
  | some v => .varchar v
  | none => .null

theorem schemaNames_cases {labels : List Str} {src : ℕ} {name : Str}
    (h : (schemaNames labels)[src]? = some name) :
    (src = 0 ∧ name = "timestamp".toList) ∨ (src = 1 ∧ name = "line".toList) ∨
      (∃ k, src = k + 2 ∧ labels[k]? = some name) ∨
      (name = "labels".toList ∨ name = "structured_metadata".toList) := by
  match src with
  | 0 => exact Or.inl ⟨rfl, (Option.some.inj h).symm⟩
  | 1 => exact Or.inr (Or.inl ⟨rfl, (Option.some.inj h).symm⟩)
  | k + 2 =>
    have h : (labels ++ ["labels".toList, "structured_metadata".toList])[k]? = some name := h
    rw [List.getElem?_append] at h
    split_ifs at h with hk
    · exact Or.inr (Or.inr (Or.inl ⟨k, rfl, h⟩))
    · have hmem := List.mem_of_getElem? h
      simp only [List.mem_cons, List.not_mem_nil, or_false] at hmem
      exact Or.inr (Or.inr (Or.inr hmem))

variable {get : LogicalGet} {labels : List Str}

theorem resolve_columnRef {i : ℕ} {name : Str}
    (h : resolveColumnName get (.columnRef i) = some name) :
    ∃ src, get.columnIds[i]? = some src ∧ get.names[src]? = some name :=
  Option.bind_eq_some_iff.mp h

theorem Planned.row_line (hp : Planned get labels) {i : ℕ}
    (h : resolveColumnName get (.columnRef i) = some "line".toList) (r : LokiRow) :
    get.row labels r i = .varchar r.line := by
  obtain ⟨src, hsrc, hname⟩ := resolve_columnRef h
  rw [hp.names] at hname
  rw [LogicalGet.row, hsrc]
  rcases schemaNames_cases hname with ⟨_, h⟩ | ⟨rfl, _⟩ | ⟨k, _, hk⟩ | h | h
  · exact absurd h (by decide)
  · rfl
  · exact absurd (hp.unreserved _ (List.mem_of_getElem? hk)) (by decide)
  · exact absurd h (by decide)
  · exact absurd h (by decide)

theorem Planned.row_timestamp (hp : Planned get labels) {i : ℕ}
    (h : resolveColumnName get (.columnRef i) = some "timestamp".toList) (r : LokiRow) :
    get.row labels r i = .temporal .timestampNs r.tsNs := by
  obtain ⟨src, hsrc, hname⟩ := resolve_columnRef h
  rw [hp.names] at hname
  rw [LogicalGet.row, hsrc]
  rcases schemaNames_cases hname with ⟨rfl, _⟩ | ⟨_, h⟩ | ⟨k, _, hk⟩ | h | h
  · rfl
  · exact absurd h (by decide)
  · exact absurd (hp.unreserved _ (List.mem_of_getElem? hk)) (by decide)
  · exact absurd h (by decide)
  · exact absurd h (by decide)

theorem Planned.row_label (hp : Planned get labels) {i : ℕ} {name : Str}
    (h : resolveColumnName get (.columnRef i) = some name) (hl : name ∈ labels) (r : LokiRow) :
    get.row labels r i = labelValue r.labels name := by
  obtain ⟨src, hsrc, hname⟩ := resolve_columnRef h
  rw [hp.names] at hname
  rw [LogicalGet.row, hsrc]
  have hres := hp.unreserved _ hl
  rcases schemaNames_cases hname with ⟨_, rfl⟩ | ⟨_, rfl⟩ | ⟨k, rfl, hk⟩ | rfl | rfl
  · exact absurd hres (by decide)
  · exact absurd hres (by decide)
  · have hlt : k < labels.length := (List.getElem?_eq_some_iff.mp hk).1
    dsimp only
    rw [sourceValue, if_neg (by omega), if_neg (by omega), if_pos (by omega),
      Nat.add_sub_cancel, hk, Option.bind_some]
    rfl
  · exact absurd hres (by decide)
  · exact absurd hres (by decide)

theorem Planned.label_ne (hp : Planned get labels) {name : Str} (hl : name ∈ labels) :
    name ≠ "timestamp".toList ∧ name ≠ "line".toList := by
  have hres := hp.unreserved _ hl
  refine ⟨?_, ?_⟩ <;> rintro rfl <;> exact absurd hres (by decide)

end Columns

section Values

variable {db : Database}

theorem compareValues_eq {a b : Value} :
    compareValues db .eq a b = .boolean true ↔ a ≠ .null ∧ b ≠ .null ∧ a = b := by
  simp only [compareValues]
  split_ifs with h
  · rcases h with rfl | rfl <;> simp
  · push Not at h
    simp [h.1, h.2]

theorem compareValues_ne {a b : Value} :
    compareValues db .ne a b = .boolean true ↔ a ≠ .null ∧ b ≠ .null ∧ a ≠ b := by
  simp only [compareValues]
  split_ifs with h
  · rcases h with rfl | rfl <;> simp
  · push Not at h
    simp [h.1, h.2]

theorem compareValues_flip (op : CompareOp) (a b : Value) :
    compareValues db op.flip b a = compareValues db op a b := by
  cases op <;> simp [compareValues, CompareOp.flip, or_comm, eq_comm]

theorem inList_eq_true {a : Value} {members : List Value} :
    inList a members = .boolean true ↔ a ≠ .null ∧ a ∈ members := by
  unfold inList
  split_ifs with h₁ h₂ h₃ <;> simp [*]

theorem comparison_holds {row : ℕ → Value} {op : CompareOp} {left right : Expression}
    {a b : Value} (hl : left.eval db row = some a) (hr : right.eval db row = some b) :
    (Expression.comparison op left right).Holds db row ↔
      compareValues db op a b = .boolean true := by
  rw [Expression.Holds, Expression.eval, hl, hr, Option.bind_some, Option.map_some,
    Option.some.injEq]

theorem isIn_holds {row : ℕ → Value} {column : Expression} {members : List Expression}
    {values : List Value} (hm : evalAll db row members = some values) :
    (Expression.operator .isIn (column :: members)).Holds db row ↔
      ∃ a, column.eval db row = some a ∧ a ≠ .null ∧ a ∈ values := by
  rw [Expression.Holds, Expression.eval, evalAll, hm]
  cases column.eval db row with
  | none => simp
  | some a =>
    rw [Option.bind_some, Option.map_some, Option.bind_some, callOperator, Option.some.injEq,
      inList_eq_true]
    simp

theorem evalAll_constantMembers {es : List Expression} {vs : List Value}
    (h : constantMembers db es = some vs) (row : ℕ → Value) : evalAll db row es = some vs := by
  induction es generalizing vs with
  | nil => exact h
  | cons e es ih =>
    obtain ⟨v, hv, h⟩ := Option.bind_eq_some_iff.mp h
    obtain ⟨vs, hvs, rfl⟩ := Option.map_eq_some_iff.mp h
    rw [evalAll, (evalConstant_eq_some hv row).1, Option.bind_some, ih hvs]
    rfl

theorem constantMembers_ne_null {es : List Expression} {vs : List Value}
    (h : constantMembers db es = some vs) : ∀ v ∈ vs, v ≠ .null := by
  induction es generalizing vs with
  | nil =>
    obtain rfl := (Option.some.inj h).symm
    exact fun v hv ↦ absurd hv List.not_mem_nil
  | cons e es ih =>
    obtain ⟨v, hv, h⟩ := Option.bind_eq_some_iff.mp h
    obtain ⟨vs, hvs, rfl⟩ := Option.map_eq_some_iff.mp h
    exact List.forall_mem_cons.mpr ⟨(evalConstant_eq_some hv (fun _ ↦ .null)).2, ih hvs⟩

theorem labelValue_eq_varchar {labels : StringMap} {name s : Str} :
    labelValue labels name = .varchar s ↔ labels.find name = some s := by
  unfold labelValue
  split <;> simp [*]

theorem labelValue_mem {labels : StringMap} {name : Str} {vs : List Str} :
    labelValue labels name ≠ .null ∧ labelValue labels name ∈ vs.map .varchar ↔
      ∃ v ∈ vs, labels.find name = some v := by
  rw [List.mem_map]
  constructor
  · rintro ⟨_, v, hv, h⟩
    exact ⟨v, hv, labelValue_eq_varchar.mp h.symm⟩
  · rintro ⟨v, hv, h⟩
    rw [labelValue_eq_varchar.mpr h]
    exact ⟨by simp, v, hv, rfl⟩

theorem Database.Lawful.toText_map (hdb : db.Lawful) (vs : List Str) :
    (vs.map Value.varchar).map db.toText = vs := by
  rw [List.map_map]
  exact (List.map_congr_left (fun s _ ↦ hdb.toText_varchar s)).trans (List.map_id _)

end Values

def StringMap.Nonempty (m : StringMap) : Prop := ∀ p ∈ m.pairs, p.2 ≠ []

theorem StringMap.Nonempty.find {m : StringMap} (h : m.Nonempty) {k v : Str}
    (hv : m.find k = some v) : v ≠ [] := by
  obtain ⟨l₁, l₂, hm, _⟩ := List.lookup_eq_some_iff.mp hv
  exact h (k, v) (hm ▸ List.mem_append_right _ List.mem_cons_self)

section Cases

variable {db : Database} {get : LogicalGet} {bind : ScanBindData}

theorem comparisonSides_eq_some {op op' : CompareOp} {left right : Expression} {name : Str}
    {v : Value} (h : comparisonSides db get op left right = some (op', name, v)) :
    ∃ column constant, resolveColumnName get column = some name ∧
      evalConstant db constant = some v ∧
      (op' = op ∧ column = left ∧ constant = right ∨
        op' = op.flip ∧ column = right ∧ constant = left) := by
  unfold comparisonSides at h
  split at h
  · rename_i n w hcol hconst
    obtain ⟨rfl, rfl, rfl⟩ := by simpa using h
    exact ⟨left, right, hcol, hconst, Or.inl ⟨rfl, rfl, rfl⟩⟩
  · split at h
    · rename_i n w hcol hconst
      obtain ⟨rfl, rfl, rfl⟩ := by simpa using h
      exact ⟨right, left, hcol, hconst, Or.inr ⟨rfl, rfl, rfl⟩⟩
    · cases h

variable (db get bind)

theorem tryComparison_cases (op : CompareOp) (left right : Expression) :
    tryComparison db get bind op left right = (bind, false) ∨
      ∃ op' name v, comparisonSides db get op left right = some (op', name, v) ∧
        ((∃ ns, tryComparison db get bind op left right = (pushTimeBound bind op' ns, false)) ∨
          name ∈ bind.labelColumns ∧
            (op' = .eq ∧ tryComparison db get bind op left right =
                (pushMatcher bind ⟨name, .eq, db.toText v⟩, true) ∨
              op' = .ne ∧ tryComparison db get bind op left right =
                (pushMatcher bind ⟨name, .neq, db.toText v⟩, false))) := by
  unfold tryComparison
  split
  · exact Or.inl rfl
  rename_i op' name v hsides
  split_ifs with htime hlabel
  · split
    · exact Or.inl rfl
    · exact Or.inr ⟨op', name, v, hsides, Or.inl ⟨_, rfl⟩⟩
  · have hl : name ∈ bind.labelColumns := of_decide_eq_true hlabel
    split
    · exact Or.inr ⟨_, name, v, hsides, Or.inr ⟨hl, Or.inl ⟨rfl, rfl⟩⟩⟩
    · exact Or.inr ⟨_, name, v, hsides, Or.inr ⟨hl, Or.inr ⟨rfl, rfl⟩⟩⟩
    · exact Or.inl rfl
  · exact Or.inl rfl

theorem tryInList_cases (type : OperatorType) (children : List Expression) :
    tryInList db get bind type children = (bind, false) ∨
      ∃ column members name values, type = .isIn ∧ children = column :: members ∧ members ≠ [] ∧
        resolveColumnName get column = some name ∧ name ∈ bind.labelColumns ∧
        constantMembers db members = some values ∧
        tryInList db get bind type children =
          (pushMatcher bind ⟨name, .re, inListRegex (values.map db.toText)⟩, true) := by
  unfold tryInList
  split
  swap
  · exact Or.inl rfl
  rename_i column member members
  split
  · exact Or.inl rfl
  rename_i name hcol
  split_ifs with hlabel
  swap
  · exact Or.inl rfl
  split
  · exact Or.inl rfl
  rename_i values hvalues
  exact Or.inr ⟨column, _, name, values, rfl, rfl, List.cons_ne_nil _ _, hcol,
    of_decide_eq_true hlabel, hvalues, rfl⟩

theorem tryFunction_cases (fname : Str) (children : List Expression) (negated : Bool) :
    tryFunction db get bind fname children negated = (bind, false) ∨
      ∃ column pattern v f, children = [column, pattern] ∧ fname ∈ lineFunctions ∧
        resolveColumnName get column = some "line".toList ∧ evalConstant db pattern = some v ∧
        lineFilterOf fname (db.toText v) = some f ∧
        tryFunction db get bind fname children negated =
          (pushLineFilter bind ⟨if xor negated (fname = "!~~".toList) then negateLineOp f.op
            else f.op, f.value⟩, true) := by
  unfold tryFunction
  split
  swap
  · exact Or.inl rfl
  rename_i column pattern
  by_cases hfname : fname ∈ lineFunctions
  swap
  · exact Or.inl (if_pos hfname)
  rw [if_neg (not_not.mpr hfname)]
  split
  swap
  · exact Or.inl rfl
  rename_i name v hcol hv
  by_cases hline : name = "line".toList
  swap
  · exact Or.inl (if_pos hline)
  rw [if_neg (not_not.mpr hline)]
  split
  · exact Or.inl rfl
  rename_i f hf
  exact Or.inr ⟨column, pattern, v, f, rfl, hfname, hline ▸ hcol, hv, hf, rfl⟩

variable {db get}

theorem tryFilter_isIn {column : Expression} {members : List Expression} {name : Str}
    {values : List Value} (hcol : resolveColumnName get column = some name)
    (hl : name ∈ bind.labelColumns) (hne : members ≠ [])
    (hvalues : constantMembers db members = some values) :
    tryFilter db get bind (.operator .isIn (column :: members)) =
      (pushMatcher bind ⟨name, .re, inListRegex (values.map db.toText)⟩, true) := by
  obtain ⟨member, members, rfl⟩ := List.exists_cons_of_ne_nil hne
  simp only [tryFilter, tryInList, hcol, isLabelColumn, hl, decide_true, not_true_eq_false,
    if_false, hvalues]

variable {bind}

structure PushedOnto (bind bind' : ScanBindData) : Prop where
  frame : bind' = { bind with
    pushedMatchers := bind'.pushedMatchers
    pushedLineFilters := bind'.pushedLineFilters
    pushedStartNs := bind'.pushedStartNs
    pushedEndNs := bind'.pushedEndNs }
  subset : ∀ m ∈ bind.pushedMatchers, m ∈ bind'.pushedMatchers
  labels : ∀ m ∈ bind'.pushedMatchers, m ∈ bind.pushedMatchers ∨ m.label ∈ bind.labelColumns

theorem PushedOnto.refl (bind : ScanBindData) : PushedOnto bind bind :=
  ⟨rfl, fun _ h ↦ h, fun _ h ↦ Or.inl h⟩

theorem PushedOnto.labelColumns {bind bind' : ScanBindData} (h : PushedOnto bind bind') :
    bind'.labelColumns = bind.labelColumns := by
  rw [h.frame]

theorem PushedOnto.trans {bind bind' bind'' : ScanBindData} (h : PushedOnto bind bind')
    (h' : PushedOnto bind' bind'') : PushedOnto bind bind'' := by
  refine ⟨?_, fun m hm ↦ h'.subset m (h.subset m hm), fun m hm ↦ ?_⟩
  · rw [h'.frame, h.frame]
  · rcases h'.labels m hm with hm | hm
    · exact h.labels m hm
    · exact Or.inr (h.labelColumns ▸ hm)

theorem pushedOnto_pushMatcher {m : LabelMatcher} (hm : m.label ∈ bind.labelColumns) :
    PushedOnto bind (pushMatcher bind m) := by
  refine ⟨rfl, fun _ h ↦ List.mem_append_left _ h, fun m' h ↦ ?_⟩
  rcases List.mem_append.mp h with h | h
  · exact Or.inl h
  · exact Or.inr (List.mem_singleton.mp h ▸ hm)

theorem pushedOnto_pushTimeBound (op : CompareOp) (ns : ℤ) :
    PushedOnto bind (pushTimeBound bind op ns) := by
  unfold pushTimeBound
  split <;> try split_ifs
  all_goals exact ⟨rfl, fun _ h ↦ h, fun _ h ↦ Or.inl h⟩

theorem pushedOnto_tryFunction (fname : Str) (children : List Expression) (negated : Bool) :
    PushedOnto bind (tryFunction db get bind fname children negated).1 := by
  rcases tryFunction_cases db get bind fname children negated with
    h | ⟨_, _, _, _, _, _, _, _, _, h⟩
  · rw [h]
    exact .refl bind
  · rw [h]
    exact ⟨rfl, fun _ h ↦ h, fun _ h ↦ Or.inl h⟩

theorem pushedOnto_tryFilter (e : Expression) : PushedOnto bind (tryFilter db get bind e).1 := by
  unfold tryFilter
  split
  · exact pushedOnto_tryFunction _ _ _
  · rename_i type children _
    rcases tryInList_cases db get bind type children with
      h | ⟨_, _, _, _, _, _, _, _, hl, _, h⟩
    · rw [h]
      exact .refl bind
    · rw [h]
      exact pushedOnto_pushMatcher hl
  · rename_i op left right
    rcases tryComparison_cases db get bind op left right with
      h | ⟨_, _, _, _, ⟨_, h⟩ | ⟨hl, ⟨_, h⟩ | ⟨_, h⟩⟩⟩ <;> rw [h]
    · exact .refl bind
    · exact pushedOnto_pushTimeBound _ _
    · exact pushedOnto_pushMatcher hl
    · exact pushedOnto_pushMatcher hl
  · exact pushedOnto_tryFunction _ _ _
  · exact .refl bind

variable (db get) in
theorem pushedOnto_foldl (filters : List Expression) (st : ScanBindData × List Expression) :
    PushedOnto st.1 (filters.foldl (pushFilter db get) st).1 := by
  induction filters generalizing st with
  | nil => exact .refl st.1
  | cons e filters ih => exact (pushedOnto_tryFilter e).trans (ih (pushFilter db get st e))

end Cases

def columnComparison (flipped : Bool) (op : CompareOp) (column constant : Expression) :
    Expression :=
  if flipped then .comparison op.flip constant column else .comparison op column constant

section Sides

variable {db : Database} {get : LogicalGet}

theorem flip_flip (op : CompareOp) : op.flip.flip = op := by cases op <;> rfl

theorem resolve_foldable {e : Expression} (h : e.isFoldable db = true) :
    resolveColumnName get e = none := by
  have hstrip : (stripCast e).isFoldable db = true := by
    induction e using stripCast.induct with
    | case1 t e ih => exact ih h
    | case2 e he =>
      rw [stripCast]
      · exact h
      · exact he
  unfold resolveColumnName
  split
  · rename_i heq
    rw [heq] at hstrip
    cases hstrip
  · rfl

theorem resolve_constant {e : Expression} {v : Value} (h : evalConstant db e = some v) :
    resolveColumnName get e = none := by
  unfold evalConstant at h
  split_ifs at h with hf
  exact resolve_foldable hf

variable {column constant : Expression} {v : Value}

theorem columnComparison_holds (flipped : Bool) (op : CompareOp) {row : ℕ → Value}
    (hconst : evalConstant db constant = some v) :
    (columnComparison flipped op column constant).Holds db row ↔
      ∃ a, column.eval db row = some a ∧ compareValues db op a v = .boolean true := by
  have hv := (evalConstant_eq_some hconst row).1
  cases hcol : column.eval db row with
  | none =>
    simp only [reduceCtorEq, false_and, exists_false, iff_false]
    cases flipped <;> simp [columnComparison, Expression.Holds, Expression.eval, hcol, hv]
  | some a =>
    simp only [Option.some.injEq, exists_eq_left']
    cases flipped with
    | false => exact comparison_holds hcol hv
    | true => exact (comparison_holds hv hcol).trans (by rw [compareValues_flip])

theorem comparisonSides_columnComparison (flipped : Bool) (op : CompareOp) {name : Str}
    (hcol : resolveColumnName get column = some name) (hconst : evalConstant db constant = some v) :
    ∃ op' left right, columnComparison flipped op column constant = .comparison op' left right ∧
      comparisonSides db get op' left right = some (op, name, v) := by
  cases flipped with
  | false =>
    refine ⟨op, column, constant, rfl, ?_⟩
    simp only [comparisonSides, hcol, hconst]
  | true =>
    refine ⟨op.flip, constant, column, rfl, ?_⟩
    simp only [comparisonSides, hcol, hconst, resolve_constant hconst, flip_flip]

theorem tryFilter_columnComparison (flipped : Bool) (op : CompareOp) (bind : ScanBindData)
    {name : Str} (hcol : resolveColumnName get column = some name)
    (hconst : evalConstant db constant = some v) :
    (tryFilter db get bind (columnComparison flipped op column constant)).1 =
      if name = "timestamp".toList then
        match tryValueToEpochNsExact db v with
        | none => bind
        | some ns => pushTimeBound bind op ns
      else if isLabelColumn bind name then
        match op with
        | .eq => pushMatcher bind ⟨name, .eq, db.toText v⟩
        | .ne => pushMatcher bind ⟨name, .neq, db.toText v⟩
        | _ => bind
      else bind := by
  obtain ⟨op', left, right, h, hsides⟩ := comparisonSides_columnComparison flipped op hcol hconst
  rw [h]
  change (tryComparison db get bind op' left right).1 = _
  simp only [tryComparison, hsides]
  split_ifs with htime hlabel
  · cases tryValueToEpochNsExact db v <;> rfl
  · cases op <;> rfl
  · rfl

theorem tryFilter_timestamp_residual (flipped : Bool) (op : CompareOp) (bind : ScanBindData)
    (hcol : resolveColumnName get column = some "timestamp".toList)
    (hconst : evalConstant db constant = some v) :
    (tryFilter db get bind (columnComparison flipped op column constant)).2 = false := by
  obtain ⟨op', left, right, h, hsides⟩ := comparisonSides_columnComparison flipped op hcol hconst
  rw [h]
  change (tryComparison db get bind op' left right).2 = _
  simp only [tryComparison, hsides, if_true]
  cases tryValueToEpochNsExact db v <;> rfl

end Sides

end DuckdbLoki
