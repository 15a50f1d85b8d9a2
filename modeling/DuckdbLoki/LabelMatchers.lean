import DuckdbLoki.Translation

namespace DuckdbLoki

section InList

theorem foldl_appendMember {acc : Str} (h : acc ≠ []) (members : List Str) :
    members.foldl appendMember acc =
      acc ++ members.flatMap (fun m ↦ '|' :: regexEscapeLiteral m) := by
  induction members generalizing acc with
  | nil => simp
  | cons m members ih =>
    rw [List.foldl_cons, appendMember, if_pos h, ih (by simp), List.flatMap_cons]
    simp

theorem parse_members (m : Str) (members : List Str) :
    Regex.parse (regexEscapeLiteral m ++ members.flatMap (fun m ↦ '|' :: regexEscapeLiteral m)) =
      some ((m :: members).map Regex.literal) := by
  induction members generalizing m with
  | nil =>
    rw [List.flatMap_nil, (regexEscapeLiteral_spells m).parse_append, Regex.parse,
      Option.map_some, Regex.foldr_push, List.append_nil]
    rfl
  | cons n members ih =>
    rw [(regexEscapeLiteral_spells m).parse_append, List.flatMap_cons, List.cons_append,
      Regex.parse, ih, Option.map_some, Option.map_some, Regex.foldr_push, List.append_nil]
    rfl

theorem inListRegex_cons {m : Str} (hm : m ≠ []) (members : List Str) :
    inListRegex (m :: members) =
      regexEscapeLiteral m ++ members.flatMap (fun m ↦ '|' :: regexEscapeLiteral m) :=
  foldl_appendMember (fun h ↦ hm (regexEscapeLiteral_eq_nil.mp h)) members

/-- The pattern of an `IN` matches the members after any leading empty ones,
or the empty text if there are no others. -/
theorem inListRegex_fullMatch {engine : Regex.Engine} (he : engine.Lawful) (members : List Str)
    (v : Str) : engine.fullMatch (inListRegex members) v = true ↔
      v ∈ members.dropWhile (· = []) ∨ members.dropWhile (· = []) = [] ∧ v = [] := by
  induction members with
  | nil =>
    rw [he.full_iff _ [[]] _ rfl, show ([[]] : Regex.Pattern) = [[]].map Regex.literal from rfl,
      Regex.full_literals]
    simp
  | cons m members ih =>
    rcases eq_or_ne m [] with rfl | hm
    · exact ih
    · have hdrop : (m :: members).dropWhile (· = []) = m :: members := by
        rw [List.dropWhile_cons_of_neg (by simpa using hm)]
      rw [inListRegex_cons hm, he.full_iff _ _ _ (parse_members m members), Regex.full_literals, hdrop]
      simp

theorem dropWhile_empty {vs : List Str} (h : [] ∉ vs) : vs.dropWhile (· = []) = vs := by
  cases vs with
  | nil => rfl
  | cons v vs =>
    refine List.dropWhile_cons_of_neg (fun hv ↦ h ?_)
    exact List.mem_cons.mpr (Or.inl (of_decide_eq_true hv).symm)

theorem mem_dropWhile_empty {vs : List Str} {v : Str} (hv : v ≠ []) :
    v ∈ vs.dropWhile (· = []) ↔ v ∈ vs := by
  induction vs with
  | nil => rfl
  | cons u vs ih =>
    rcases eq_or_ne u [] with rfl | hu
    · rw [List.dropWhile_cons_of_pos (by simp), ih, List.mem_cons]
      exact (or_iff_right hv).symm
    · rw [List.dropWhile_cons_of_neg (by simpa using hu)]

end InList

section Exact

variable {db : Database} {get : LogicalGet} {bind : ScanBindData} {i : ℕ} {name : Str}

def labelEquals (i : ℕ) (v : Str) : Expression :=
  .comparison .eq (.columnRef i) (.constant (.varchar v))

def labelIn (i : ℕ) (vs : List Str) : Expression :=
  .operator .isIn (.columnRef i :: vs.map (fun v ↦ .constant (.varchar v)))

def bareRow : LokiRow := ⟨0, [], .empty, .empty⟩

theorem bareRow_nonempty : bareRow.labels.Nonempty := fun _ h ↦ absurd h List.not_mem_nil

theorem constantMembers_varchar (vs : List Str) :
    constantMembers db (vs.map (fun v ↦ .constant (.varchar v))) = some (vs.map .varchar) := by
  induction vs with
  | nil => rfl
  | cons v vs ih =>
    rw [List.map_cons, constantMembers, evalConstant_constant (by simp), Option.bind_some, ih]
    rfl

variable (hdb : db.Lawful) (hp : Planned get bind.labelColumns)
  (hcol : resolveColumnName get (.columnRef i) = some name) (hl : name ∈ bind.labelColumns)

include hdb hp hcol hl

theorem tryFilter_labelEquals (v : Str) : tryFilter db get bind (labelEquals i v) =
    (pushMatcher bind ⟨name, .eq, v⟩, true) := by
  have hconst : evalConstant db (.constant (.varchar v)) = some (.varchar v) :=
    evalConstant_constant (by simp)
  have hsides : comparisonSides db get .eq (.columnRef i) (.constant (.varchar v)) =
      some (.eq, name, .varchar v) := by
    simp only [comparisonSides, hcol, hconst]
  simp only [labelEquals, tryFilter, tryComparison, hsides, (hp.label_ne hl).1, if_false,
    isLabelColumn, hl, decide_true, if_true, hdb.toText_varchar]

omit hp in
theorem tryFilter_labelIn {vs : List Str} (hvs : vs ≠ []) : tryFilter db get bind (labelIn i vs) =
    (pushMatcher bind ⟨name, .re, inListRegex vs⟩, true) := by
  rw [labelIn, tryFilter_isIn bind hcol hl (by simpa using hvs) (constantMembers_varchar vs),
    hdb.toText_map]

omit hdb in
theorem eval_label (r : LokiRow) :
    (Expression.columnRef i).eval db (get.row bind.labelColumns r) =
      some (labelValue r.labels name) := by
  rw [Expression.eval, hp.row_label hcol hl]

omit hdb in
theorem labelEquals_holds (v : Str) (r : LokiRow) :
    (labelEquals i v).Holds db (get.row bind.labelColumns r) ↔ r.labels.find name = some v := by
  rw [labelEquals, comparison_holds (eval_label hp hcol hl r) rfl, compareValues_eq,
    ← labelValue_eq_varchar]
  constructor
  · exact fun h ↦ h.2.2
  · intro h
    rw [h]
    simp

omit hdb in
theorem labelIn_holds (vs : List Str) (r : LokiRow) :
    (labelIn i vs).Holds db (get.row bind.labelColumns r) ↔
      ∃ v ∈ vs, r.labels.find name = some v := by
  rw [labelIn, isIn_holds (evalAll_constantMembers (constantMembers_varchar vs) _),
    eval_label hp hcol hl, ← labelValue_mem]
  simp

omit hp hcol hl in
theorem in_accepts {vs : List Str} (labels : StringMap) :
    LabelMatcher.accepts db.regex ⟨name, .re, inListRegex vs⟩ labels = true ↔
      (labels.find name).getD [] ∈ vs.dropWhile (· = []) ∨
        vs.dropWhile (· = []) = [] ∧ (labels.find name).getD [] = [] :=
  inListRegex_fullMatch hdb.regex vs _

variable (hm : bind.pushedMatchers = []) (hf : bind.pushedLineFilters = [])

include hm hf

omit hdb hp hcol hl in
theorem accepts_of_none (r : LokiRow) : bind.Accepts db.regex r := by
  simp [ScanBindData.Accepts, hm, hf]

omit hp in
theorem labelIn_accepts {vs : List Str} (hvs : vs ≠ []) (r : LokiRow) :
    (tryFilter db get bind (labelIn i vs)).1.Accepts db.regex r ↔
      (r.labels.find name).getD [] ∈ vs.dropWhile (· = []) ∨
        vs.dropWhile (· = []) = [] ∧ (r.labels.find name).getD [] = [] := by
  rw [tryFilter_labelIn hdb hcol hl hvs, accepts_pushMatcher, in_accepts hdb]
  exact and_iff_right (accepts_of_none hm hf r)

omit hp in
theorem labelIn_accepts_perm {vs vs' : List Str} (hvs : vs ≠ []) (hempty : [] ∉ vs)
    (hperm : vs'.Perm vs) (r : LokiRow) :
    (tryFilter db get bind (labelIn i vs')).1.Accepts db.regex r ↔
      (r.labels.find name).getD [] ∈ vs := by
  have hne : vs' ≠ [] := fun h ↦ hvs (by rw [h] at hperm; exact hperm.symm.eq_nil)
  have hempty' : [] ∉ vs' := fun h ↦ hempty (hperm.mem_iff.mp h)
  rw [labelIn_accepts hdb hcol hl hm hf hne, dropWhile_empty hempty', hperm.mem_iff]
  exact or_iff_left (fun h ↦ hne h.1)

theorem labelEquals_exact_iff (v : Str) :
    (∀ r : LokiRow, r.labels.Nonempty →
      ((tryFilter db get bind (labelEquals i v)).1.Accepts db.regex r ↔
        (labelEquals i v).Holds db (get.row bind.labelColumns r))) ↔ v ≠ [] := by
  simp only [tryFilter_labelEquals hdb hp hcol hl, labelEquals_holds hp hcol hl,
    accepts_pushMatcher, accepts_of_none hm hf, true_and, LabelMatcher.accepts, decide_eq_true_eq]
  constructor
  · rintro h rfl
    have := (h bareRow bareRow_nonempty).mp rfl
    cases this
  · intro hv r hr
    cases h : r.labels.find name with
    | none => simpa using hv.symm
    | some u => simp

theorem labelIn_exact_iff {vs : List Str} (hvs : vs ≠ []) :
    ((∀ r : LokiRow, r.labels.Nonempty →
        ((tryFilter db get bind (labelIn i vs)).1.Accepts db.regex r ↔
          (labelIn i vs).Holds db (get.row bind.labelColumns r))) ∧
      (∀ vs', vs'.Perm vs → ∀ r : LokiRow, r.labels.Nonempty →
        ((tryFilter db get bind (labelIn i vs')).1.Accepts db.regex r ↔
          (tryFilter db get bind (labelIn i vs)).1.Accepts db.regex r))) ↔ [] ∉ vs := by
  constructor
  · rintro ⟨hexact, hperm⟩ hmem
    have hbare : ¬ (tryFilter db get bind (labelIn i vs)).1.Accepts db.regex bareRow := by
      rw [hexact bareRow bareRow_nonempty, labelIn_holds hp hcol hl]
      rintro ⟨v, _, hv⟩
      cases hv
    have hpattern := hbare
    rw [labelIn_accepts hdb hcol hl hm hf hvs] at hpattern
    -- some member is not empty; with that one first, the empty one is in the pattern
    obtain ⟨a, ha, hne⟩ : ∃ a ∈ vs, a ≠ [] := by
      by_contra hall
      push Not at hall
      exact hpattern (Or.inr ⟨List.dropWhile_eq_nil_iff.mpr (by simpa using hall), rfl⟩)
    have hfront : (a :: vs.erase a).Perm vs := (List.perm_cons_erase ha).symm
    refine hbare ((hperm _ hfront bareRow bareRow_nonempty).mp ?_)
    rw [labelIn_accepts hdb hcol hl hm hf (by simp),
      List.dropWhile_cons_of_neg (by simpa using hne)]
    exact Or.inl (hfront.mem_iff.mpr hmem)
  · intro hempty
    have hmembers : ∀ {vs' : List Str}, vs'.Perm vs → ∀ r : LokiRow,
        ((tryFilter db get bind (labelIn i vs')).1.Accepts db.regex r ↔
          (r.labels.find name).getD [] ∈ vs) := labelIn_accepts_perm hdb hcol hl hm hf hvs hempty
    refine ⟨fun r hr ↦ ?_, fun vs' hperm r _ ↦ ?_⟩
    · rw [hmembers (List.Perm.refl _), labelIn_holds hp hcol hl]
      cases h : r.labels.find name with
      | none => simpa using hempty
      | some u => simp
    · rw [hmembers hperm, hmembers (List.Perm.refl _)]

omit hm hf

/-- The empty constant is the one an equality is not exact for, and the one an
`IN` is not exact for in every order of its members. -/
theorem label_predicates_exact_iff (hm : bind.pushedMatchers = [])
    (hf : bind.pushedLineFilters = []) :
    (∀ v, (∀ r : LokiRow, r.labels.Nonempty →
      ((tryFilter db get bind (labelEquals i v)).1.Accepts db.regex r ↔
        (labelEquals i v).Holds db (get.row bind.labelColumns r))) ↔ v ≠ []) ∧
    (∀ vs, vs ≠ [] →
      ((∀ r : LokiRow, r.labels.Nonempty →
          ((tryFilter db get bind (labelIn i vs)).1.Accepts db.regex r ↔
            (labelIn i vs).Holds db (get.row bind.labelColumns r))) ∧
        (∀ vs', vs'.Perm vs → ∀ r : LokiRow, r.labels.Nonempty →
          ((tryFilter db get bind (labelIn i vs')).1.Accepts db.regex r ↔
            (tryFilter db get bind (labelIn i vs)).1.Accepts db.regex r)) ↔ [] ∉ vs)) :=
  ⟨labelEquals_exact_iff hdb hp hcol hl hm hf,
    fun _ hvs ↦ labelIn_exact_iff hdb hp hcol hl hm hf hvs⟩

end Exact

section Samples

def jobGet : LogicalGet := ⟨[0, 1, 2], schemaNames ["job".toList]⟩

def jobBind : ScanBindData := { labelColumns := ["job".toList], pushdownMode := true }

theorem jobGet_planned : Planned jobGet jobBind.labelColumns where
  names := rfl
  unreserved := by decide

theorem label_predicates_exact_job :
    (∀ r : LokiRow, r.labels.Nonempty →
      ((tryFilter .reference jobGet jobBind (labelEquals 2 "api".toList)).1.Accepts
          Regex.reference r ↔
        (labelEquals 2 "api".toList).Holds .reference (jobGet.row jobBind.labelColumns r))) ∧
    (∀ vs', vs'.Perm ["api".toList, "web".toList] → ∀ r : LokiRow, r.labels.Nonempty →
      ((tryFilter .reference jobGet jobBind (labelIn 2 vs')).1.Accepts Regex.reference r ↔
        (tryFilter .reference jobGet jobBind (labelIn 2 ["api".toList, "web".toList])).1.Accepts
          Regex.reference r)) := by
  have hjob : resolveColumnName jobGet (.columnRef 2) = some "job".toList := rfl
  have h := label_predicates_exact_iff Database.reference_lawful jobGet_planned hjob (by decide)
    rfl rfl
  exact ⟨(h.1 _).mpr (by decide), ((h.2 _ (by decide)).mpr (by decide)).2⟩

theorem empty_label_constants :
    ((tryFilter .reference jobGet jobBind (labelEquals 2 [])).1.Accepts Regex.reference bareRow ∧
      ¬ (labelEquals 2 []).Holds .reference (jobGet.row jobBind.labelColumns bareRow)) ∧
    (tryFilter .reference jobGet jobBind (labelIn 2 ["a".toList, []])).1.Accepts
      Regex.reference bareRow ∧
    ¬ (tryFilter .reference jobGet jobBind (labelIn 2 [[], "a".toList])).1.Accepts
      Regex.reference bareRow := by
  decide

end Samples

end DuckdbLoki
