import DuckdbLoki.LabelMatchers
import DuckdbLoki.LineFilters

namespace DuckdbLoki

section Plain

variable (db : Database) (get : LogicalGet) (labels : List Str)

def IsColumnRef (e : Expression) : Prop := ∃ i, e = .columnRef i

/-- Where the sides are a promoted label and a constant, the label is not cast
and the constant is a non-empty text. -/
def PlainLabel (column constant : Expression) : Prop :=
  ∀ name v, resolveColumnName get column = some name → evalConstant db constant = some v →
    name ∈ labels → IsColumnRef column ∧ ∃ s, s ≠ [] ∧ v = .varchar s

def PlainMembers (column : Expression) (members : List Expression) : Prop :=
  ∀ name vs, resolveColumnName get column = some name → constantMembers db members = some vs →
    name ∈ labels → IsColumnRef column ∧ ∀ v ∈ vs, ∃ s, s ≠ [] ∧ v = .varchar s

def PlainLine (column pattern : Expression) : Prop :=
  ∀ v, resolveColumnName get column = some "line".toList → evalConstant db pattern = some v →
    IsColumnRef column ∧ ∃ s, v = .varchar s

/-- The conjuncts over uncast columns and texts; what the translation leaves
alone may be any predicate. -/
def Plain : Expression → Prop
  | .comparison op left right =>
    op = .eq ∨ op = .ne → PlainLabel db get labels left right ∧ PlainLabel db get labels right left
  | .operator .isIn (column :: members) => PlainMembers db get labels column members
  | .operator .not [.function fname [column, pattern]] =>
    fname ∈ lineFunctions → PlainLine db get column pattern
  | .function fname [column, pattern] => fname ∈ lineFunctions → PlainLine db get column pattern
  | _ => True

end Plain

section Step

variable {db : Database} {get : LogicalGet} {bind : ScanBindData}

theorem accepts_pushTimeBound {engine : Regex.Engine} {op : CompareOp} {ns : ℤ} {r : LokiRow} :
    (pushTimeBound bind op ns).Accepts engine r ↔ bind.Accepts engine r := by
  obtain ⟨hm, hf, _⟩ := pushTimeBound_frame bind op ns
  rw [ScanBindData.Accepts, ScanBindData.Accepts, hm, hf]

/-- The conjunct is kept exactly: by what is pushed for it, together with the
conjunct itself unless it is erased. -/
def KeepsExactly (db : Database) (get : LogicalGet) (bind : ScanBindData) (e : Expression)
    (res : ScanBindData × Bool) (r : LokiRow) : Prop :=
  res.1.Accepts db.regex r ∧ (res.2 = false → e.Holds db (get.row bind.labelColumns r)) ↔
    bind.Accepts db.regex r ∧ e.Holds db (get.row bind.labelColumns r)

theorem KeepsExactly.residual {e : Expression} {bind' : ScanBindData} {r : LokiRow}
    (h : e.Holds db (get.row bind.labelColumns r) →
      (bind'.Accepts db.regex r ↔ bind.Accepts db.regex r)) :
    KeepsExactly db get bind e (bind', false) r := by
  unfold KeepsExactly
  rw [show ((bind', false).2 = false → e.Holds db (get.row bind.labelColumns r)) ↔
    e.Holds db (get.row bind.labelColumns r) from ⟨fun h ↦ h rfl, fun h _ ↦ h⟩]
  exact and_congr_left h

theorem KeepsExactly.consumed {e : Expression} {bind' : ScanBindData} {r : LokiRow}
    (h : bind'.Accepts db.regex r ↔
      bind.Accepts db.regex r ∧ e.Holds db (get.row bind.labelColumns r)) :
    KeepsExactly db get bind e (bind', true) r := by
  unfold KeepsExactly
  rw [h]
  simp

theorem exists_map_varchar {values : List Value}
    (h : ∀ v ∈ values, ∃ s, s ≠ [] ∧ v = .varchar s) :
    ∃ vs : List Str, [] ∉ vs ∧ values = vs.map .varchar := by
  induction values with
  | nil => exact ⟨[], List.not_mem_nil, rfl⟩
  | cons v values ih =>
    obtain ⟨s, hs, rfl⟩ := h v List.mem_cons_self
    obtain ⟨vs, hvs, rfl⟩ := ih (fun w hw ↦ h w (List.mem_cons_of_mem _ hw))
    exact ⟨s :: vs, by simpa [hs.symm] using hvs, rfl⟩

theorem getD_eq_iff {o : Option Str} {s : Str} (hs : s ≠ []) : o.getD [] = s ↔ o = some s := by
  cases o with
  | none => simpa using hs.symm
  | some u => simp

theorem labelValue_ne_varchar {m : StringMap} {name s : Str} :
    labelValue m name ≠ .null ∧ labelValue m name ≠ .varchar s ↔
      ∃ u, m.find name = some u ∧ u ≠ s := by
  unfold labelValue
  cases m.find name <;> simp

variable (hdb : db.Lawful) (hp : Planned get bind.labelColumns)

include hdb hp

omit hdb hp in
theorem comparisonSides_equality {op op' : CompareOp} {left right : Expression} {name : Str}
    {v : Value} (h : comparisonSides db get op left right = some (op', name, v)) :
    (op' = .eq ↔ op = .eq) ∧ (op' = .ne ↔ op = .ne) := by
  obtain ⟨_, _, _, _, ⟨rfl, _⟩ | ⟨rfl, _⟩⟩ := comparisonSides_eq_some h
  · exact ⟨Iff.rfl, Iff.rfl⟩
  · cases op <;> simp [CompareOp.flip]

omit hdb in
theorem comparisonSides_holds {op op' : CompareOp} {left right : Expression} {name : Str}
    {v : Value} (hplain : Plain db get bind.labelColumns (.comparison op left right))
    (heq : op = .eq ∨ op = .ne) (hsides : comparisonSides db get op left right = some (op', name, v))
    (hl : name ∈ bind.labelColumns) (r : LokiRow) :
    ∃ s, s ≠ [] ∧ v = .varchar s ∧
      ((Expression.comparison op left right).Holds db (get.row bind.labelColumns r) ↔
        compareValues db op (labelValue r.labels name) (.varchar s) = .boolean true) := by
  obtain ⟨column, constant, hcol, hconst, hcase⟩ := comparisonSides_eq_some hsides
  have hside : PlainLabel db get bind.labelColumns column constant := by
    rcases hcase with ⟨_, rfl, rfl⟩ | ⟨_, rfl, rfl⟩
    · exact (hplain heq).1
    · exact (hplain heq).2
  obtain ⟨⟨i, rfl⟩, s, hs, rfl⟩ := hside name v hcol hconst hl
  have hleft : (Expression.columnRef i).eval db (get.row bind.labelColumns r) =
      some (labelValue r.labels name) := by
    rw [Expression.eval, hp.row_label hcol hl]
  have hright := (evalConstant_eq_some hconst (get.row bind.labelColumns r)).1
  refine ⟨s, hs, rfl, ?_⟩
  rcases hcase with ⟨_, rfl, rfl⟩ | ⟨_, rfl, rfl⟩
  · exact comparison_holds hleft hright
  · rw [comparison_holds hright hleft, ← compareValues_flip]
    rcases heq with rfl | rfl <;> rfl

theorem tryComparison_exact {op : CompareOp} {left right : Expression}
    (hplain : Plain db get bind.labelColumns (.comparison op left right)) (r : LokiRow) :
    KeepsExactly db get bind (.comparison op left right)
      (tryComparison db get bind op left right) r := by
  rcases tryComparison_cases db get bind op left right with
    h | ⟨op', name, v, hsides, hpush⟩
  · rw [h]
    exact .residual (fun _ ↦ Iff.rfl)
  have hop := comparisonSides_equality hsides
  rcases hpush with ⟨ns, h⟩ | ⟨hl, ⟨rfl, h⟩ | ⟨rfl, h⟩⟩ <;> rw [h]
  · exact .residual (fun _ ↦ accepts_pushTimeBound)
  · -- an equality is erased
    have heq := hop.1.mp rfl
    obtain ⟨s, hs, rfl, hholds⟩ := comparisonSides_holds hp hplain (Or.inl heq) hsides hl r
    refine .consumed ?_
    rw [accepts_pushMatcher, hholds, heq, compareValues_eq, hdb.toText_varchar]
    apply and_congr_right
    intro _
    rw [LabelMatcher.accepts, decide_eq_true_iff, getD_eq_iff hs, ← labelValue_eq_varchar]
    constructor
    · intro h
      rw [h]
      simp
    · exact fun h ↦ h.2.2
  · -- an inequality stays, and what is pushed for it only helps
    have hne := hop.2.mp rfl
    obtain ⟨s, hs, rfl, hholds⟩ := comparisonSides_holds hp hplain (Or.inr hne) hsides hl r
    refine .residual (fun h ↦ ?_)
    rw [hholds, hne, compareValues_ne] at h
    obtain ⟨u, hu, hne⟩ := labelValue_ne_varchar.mp ⟨h.1, h.2.2⟩
    rw [accepts_pushMatcher, hdb.toText_varchar]
    refine and_iff_left ?_
    rw [LabelMatcher.accepts, hu]
    exact decide_eq_true hne

theorem tryInList_exact {children : List Expression}
    (hplain : Plain db get bind.labelColumns (.operator .isIn children)) (r : LokiRow) :
    KeepsExactly db get bind (.operator .isIn children)
      (tryInList db get bind .isIn children) r := by
  rcases tryInList_cases db get bind .isIn children with
    h | ⟨column, members, name, values, _, rfl, hne, hcol, hl, hvalues, h⟩ <;> rw [h]
  · exact .residual (fun _ ↦ Iff.rfl)
  obtain ⟨⟨i, rfl⟩, htexts⟩ := hplain name values hcol hvalues hl
  obtain ⟨vs, hvs, rfl⟩ := exists_map_varchar htexts
  have hne : vs ≠ [] := by
    rintro rfl
    obtain ⟨e, es, rfl⟩ := List.exists_cons_of_ne_nil hne
    obtain ⟨_, _, h⟩ := Option.bind_eq_some_iff.mp hvalues
    obtain ⟨_, _, h⟩ := Option.map_eq_some_iff.mp h
    cases h
  refine .consumed ?_
  rw [accepts_pushMatcher, hdb.toText_map, in_accepts hdb, dropWhile_empty hvs,
    or_iff_left (fun h ↦ hne h.1), isIn_holds (evalAll_constantMembers hvalues _),
    eval_label hp hcol hl]
  simp only [Option.some.injEq, exists_eq_left', labelValue_mem]
  apply and_congr_right
  intro _
  cases r.labels.find name with
  | none => simpa using hvs
  | some u => simp

omit hdb in
theorem eval_lineFunction {i : ℕ} {fname s : Str} {pattern : Expression} {b : Bool} {r : LokiRow}
    (hcol : resolveColumnName get (.columnRef i) = some "line".toList)
    (hs : evalConstant db pattern = some (.varchar s)) (hb : lineTest db fname r.line s = some b) :
    (Expression.function fname [.columnRef i, pattern]).eval db (get.row bind.labelColumns r) =
      some (.boolean b) := by
  rw [Expression.eval, evalAll, evalAll, evalAll, Expression.eval, hp.row_line hcol,
    (evalConstant_eq_some hs _).1]
  simp only [Option.bind_some, Option.map_some, callFunction, hb]

/-- `e` is the line function itself or, where `negated`, its negation. -/
theorem tryFunction_exact {fname : Str} {children : List Expression} {negated : Bool}
    {e : Expression} {r : LokiRow}
    (hplain : ∀ column pattern, children = [column, pattern] → fname ∈ lineFunctions →
      PlainLine db get column pattern)
    (he : ∀ b, (Expression.function fname children).eval db (get.row bind.labelColumns r) =
      some (.boolean b) → (e.Holds db (get.row bind.labelColumns r) ↔ xor negated b = true)) :
    KeepsExactly db get bind e (tryFunction db get bind fname children negated) r := by
  rcases tryFunction_cases db get bind fname children negated with
    h | ⟨column, pattern, v, f, rfl, hfname, hcol, hv, hf, h⟩ <;> rw [h]
  · exact .residual (fun _ ↦ Iff.rfl)
  obtain ⟨⟨i, rfl⟩, s, rfl⟩ := hplain column pattern rfl hfname v hcol hv
  rw [hdb.toText_varchar] at hf
  have htest := lineFilterOf_accepts hdb.regex hfname hf r.line
  refine .consumed ?_
  rw [accepts_pushLineFilter, he _ (eval_lineFunction hp hcol hv htest)]
  apply and_congr_right
  intro _
  split_ifs with hneg
  · rw [negateLineOp_accepts]
    revert hneg
    cases negated <;> cases f.accepts db.regex r.line <;> simp +contextual
  · revert hneg
    cases negated <;> cases f.accepts db.regex r.line <;> simp +contextual

theorem tryFilter_exact {e : Expression} (hplain : Plain db get bind.labelColumns e)
    (r : LokiRow) : KeepsExactly db get bind e (tryFilter db get bind e) r := by
  unfold tryFilter
  split
  · rename_i fname children
    refine tryFunction_exact hdb hp (fun column pattern h hfname ↦ ?_) (fun b hb ↦ ?_)
    · subst h
      exact hplain hfname
    · rw [Expression.Holds, Expression.eval, evalAll, evalAll, hb]
      cases b <;> simp [callOperator]
  · rename_i type children hnot
    cases type with
    | isIn => exact tryInList_exact hdb hp hplain r
    | not => exact .residual (fun _ ↦ Iff.rfl)
    | other type => exact .residual (fun _ ↦ Iff.rfl)
  · exact tryComparison_exact hdb hp hplain r
  · rename_i fname children
    refine tryFunction_exact hdb hp (fun column pattern h hfname ↦ ?_) (fun b hb ↦ ?_)
    · subst h
      exact hplain hfname
    · rw [Expression.Holds, hb]
      simp
  · exact .residual (fun _ ↦ Iff.rfl)

end Step

section Run

variable {db : Database} {get : LogicalGet}

theorem foldl_pushFilter_exact (hdb : db.Lawful) {labels : List Str} (hp : Planned get labels)
    {filters : List Expression} (hplain : ∀ e ∈ filters, Plain db get labels e)
    (st : ScanBindData × List Expression) (hst : st.1.labelColumns = labels) (r : LokiRow) :
    ((filters.foldl (pushFilter db get) st).1.Accepts db.regex r ∧
        ∀ e ∈ (filters.foldl (pushFilter db get) st).2, e.Holds db (get.row labels r)) ↔
      (st.1.Accepts db.regex r ∧ ∀ e ∈ st.2, e.Holds db (get.row labels r)) ∧
        ∀ e ∈ filters, e.Holds db (get.row labels r) := by
  induction filters generalizing st with
  | nil => simp
  | cons e filters ih =>
    subst hst
    have hstep := tryFilter_exact hdb hp (hplain e List.mem_cons_self) r
    rw [List.foldl_cons, ih (fun e' he' ↦ hplain e' (List.mem_cons_of_mem _ he')) _
      (pushedOnto_tryFilter e).labelColumns, List.forall_mem_cons]
    have hresidual : ∀ {consumed : Bool} {P : Expression → Prop},
        (∀ e' ∈ (if consumed then st.2 else st.2 ++ [e]), P e') ↔
          (consumed = false → P e) ∧ ∀ e' ∈ st.2, P e' := by
      intro consumed P
      cases consumed <;> simp [or_imp, forall_and, and_comm]
    unfold KeepsExactly at hstep
    simp only [pushFilter, hresidual]
    rw [← and_assoc, hstep]
    exact (and_congr_left' and_right_comm).trans and_assoc

/-- The entries a `WHERE` keeps are those that pass what is pushed and satisfy
what is left. -/
theorem pushdownComplexFilter_exact (hdb : db.Lawful) {bind : ScanBindData}
    (hp : Planned get bind.labelColumns) (hm : bind.pushedMatchers = [])
    (hf : bind.pushedLineFilters = []) {filters : List Expression}
    (hplain : ∀ e ∈ filters, Plain db get bind.labelColumns e) (r : LokiRow) :
    (∀ e ∈ filters, e.Holds db (get.row bind.labelColumns r)) ↔
      (pushdownComplexFilter db get bind filters).1.Accepts db.regex r ∧
        ∀ e ∈ (pushdownComplexFilter db get bind filters).2,
          e.Holds db (get.row bind.labelColumns r) := by
  have hempty : bind.Accepts db.regex r := by simp [ScanBindData.Accepts, hm, hf]
  rw [pushdownComplexFilter, foldl_pushFilter_exact hdb hp hplain (bind, []) rfl]
  simp [hempty]

def jobFilters : List Expression :=
  [labelEquals 2 "api".toList,
    .operator .not [.function "contains".toList
      [.columnRef 1, .constant (.varchar "debug".toList)]],
    .comparison .lt (.constant (.temporal .timestampNs 5)) (.columnRef 0)]

theorem plain_labelEquals {labels : List Str} {i : ℕ} {s : Str} (hs : s ≠ []) :
    Plain db get labels (labelEquals i s) := by
  refine fun _ ↦ ⟨fun name v _ hv _ ↦ ⟨⟨i, rfl⟩, s, hs, ?_⟩, fun name v hcol _ _ ↦ nomatch hcol⟩
  rw [evalConstant_constant (by simp)] at hv
  exact (Option.some.inj hv).symm

theorem jobFilters_plain : ∀ e ∈ jobFilters, Plain .reference jobGet jobBind.labelColumns e := by
  intro e he
  simp only [jobFilters, List.mem_cons, List.not_mem_nil, or_false] at he
  rcases he with rfl | rfl | rfl
  · exact plain_labelEquals (by decide)
  · rintro _ v _ hv
    rw [evalConstant_constant (by simp)] at hv
    exact ⟨⟨1, rfl⟩, _, (Option.some.inj hv).symm⟩
  · rintro (h | h) <;> cases h

def apiRow : LokiRow where
  tsNs := 7
  line := "GET /".toList
  labels := ⟨[("job".toList, "api".toList)], List.pairwise_singleton _ _⟩
  structuredMetadata := .empty

theorem pushdownComplexFilter_exact_job :
    (∀ e ∈ jobFilters, e.Holds .reference (jobGet.row jobBind.labelColumns apiRow)) ↔
      (pushdownComplexFilter .reference jobGet jobBind jobFilters).1.Accepts
          Regex.reference apiRow ∧
        ∀ e ∈ (pushdownComplexFilter .reference jobGet jobBind jobFilters).2,
          e.Holds .reference (jobGet.row jobBind.labelColumns apiRow) :=
  pushdownComplexFilter_exact Database.reference_lawful jobGet_planned rfl rfl jobFilters_plain
    apiRow

end Run

end DuckdbLoki
