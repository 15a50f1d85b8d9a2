import DuckdbLoki.CastPushdown

namespace DuckdbLoki

section Bounds

theorem foldl_max_lt {l : List ℤ} {a x : ℤ} : l.foldl max a < x ↔ a < x ∧ ∀ b ∈ l, b < x := by
  induction l generalizing a with
  | nil => simp
  | cons b l ih => rw [List.foldl_cons, ih, max_lt_iff, List.forall_mem_cons, and_assoc]

theorem lt_foldl_min {l : List ℤ} {a x : ℤ} : x < l.foldl min a ↔ x < a ∧ ∀ b ∈ l, x < b := by
  induction l generalizing a with
  | nil => simp
  | cons b l ih => rw [List.foldl_cons, ih, lt_min_iff, List.forall_mem_cons, and_assoc]

theorem foldl_max_of_ne_nil {l : List ℤ} {a : ℤ} (hne : l ≠ []) (h : ∀ b ∈ l, a < b) :
    l.foldl max a ≠ a ∧ ∀ x, l.foldl max a < x ↔ ∀ b ∈ l, b < x := by
  obtain ⟨b, hb⟩ := List.exists_mem_of_ne_nil l hne
  have hab := h b hb
  constructor
  · intro heq
    have := (foldl_max_lt.mp (show l.foldl max a < a + 1 by omega)).2 b hb
    omega
  · intro x
    rw [foldl_max_lt]
    exact and_iff_right_of_imp (fun hx ↦ hab.trans (hx b hb))

theorem foldl_min_of_ne_nil {l : List ℤ} {a : ℤ} (hne : l ≠ []) (h : ∀ b ∈ l, b < a) :
    l.foldl min a ≠ a ∧ ∀ x, x < l.foldl min a ↔ ∀ b ∈ l, x < b := by
  obtain ⟨b, hb⟩ := List.exists_mem_of_ne_nil l hne
  have hab := h b hb
  constructor
  · intro heq
    have := (lt_foldl_min.mp (show a - 1 < l.foldl min a by omega)).2 b hb
    omega
  · intro x
    rw [lt_foldl_min]
    exact and_iff_right_of_imp (fun hx ↦ (hx b hb).trans hab)

/-- The start a comparison with `ns` sets, unless it is the sentinel. -/
def lowerBound (op : CompareOp) (ns : ℤ) : Option ℤ :=
  match op with
  | .gt | .ge => if ns = int64Min then none else some ns
  | .eq => if ns = int64Min ∨ ns = int64Max then none else some ns
  | _ => none

def upperBound (op : CompareOp) (ns : ℤ) : Option ℤ :=
  match op with
  | .lt => if ns = int64Max then none else some ns
  | .le | .eq => if int64Max ≤ ns + 1 then none else some (ns + 1)
  | _ => none

theorem lowerBound_eq_some {op : CompareOp} {ns b : ℤ} (h : lowerBound op ns = some b) :
    b = ns ∧ ns ≠ int64Min ∧ (op = .gt ∨ op = .ge ∨ op = .eq) := by
  cases op with
  | gt | ge | eq =>
    simp only [lowerBound] at h
    split_ifs at h with hne
    obtain rfl := Option.some.inj h
    simp_all
  | _ => cases h

theorem upperBound_eq_some {op : CompareOp} {ns b : ℤ} (h : upperBound op ns = some b) :
    (ns ≤ int64Max → b < int64Max) ∧
      (op = .lt ∧ b = ns ∨ (op = .le ∨ op = .eq) ∧ b = ns + 1) := by
  cases op with
  | lt =>
    simp only [upperBound] at h
    split_ifs at h with hne
    obtain rfl := Option.some.inj h
    exact ⟨fun hle ↦ lt_of_le_of_ne hle hne, Or.inl ⟨rfl, rfl⟩⟩
  | le | eq =>
    simp only [upperBound] at h
    split_ifs at h with hne
    obtain rfl := Option.some.inj h
    exact ⟨fun _ ↦ not_le.mp hne, Or.inr ⟨by simp, rfl⟩⟩
  | _ => cases h

theorem lowerBound_le {op : CompareOp} {ns t b : ℤ} (h : lowerBound op ns = some b)
    (ht : op.Rel t ns) : b ≤ t := by
  obtain ⟨rfl, _, rfl | rfl | rfl⟩ := lowerBound_eq_some h
  · exact le_of_lt ht
  · exact ht
  · exact ge_of_eq ht

theorem lt_upperBound {op : CompareOp} {ns t b : ℤ} (h : upperBound op ns = some b)
    (ht : op.Rel t ns) : t < b := by
  obtain ⟨_, ⟨rfl, rfl⟩ | ⟨rfl | rfl, rfl⟩⟩ := upperBound_eq_some h
  · exact ht
  · exact Int.lt_add_one_iff.mpr ht
  · exact Int.lt_add_one_iff.mpr (le_of_eq ht)

end Bounds

section Predicates

variable (db : Database) (get : LogicalGet)

structure TimePredicate where
  flipped : Bool
  op : CompareOp
  column : Expression
  constant : Expression
  value : Value
  ns : ℤ
  resolves : resolveColumnName get column = some "timestamp".toList
  constant_eq : evalConstant db constant = some value
  value_eq : tryValueToEpochNsExact db value = some ns
  inInt64 : InInt64 ns

variable {db get}

def TimePredicate.expression (p : TimePredicate db get) : Expression :=
  columnComparison p.flipped p.op p.column p.constant

def TimePredicate.Holds (p : TimePredicate db get) (t : ℤ) : Prop := p.op.Rel t p.ns

def TimePredicate.nanos (hc : db.LawfulCasts) {i : ℕ}
    (hcol : resolveColumnName get (.columnRef i) = some "timestamp".toList) (flipped : Bool)
    (op : CompareOp) {ns : ℤ} (hns : InInt64 ns) : TimePredicate db get where
  flipped := flipped
  op := op
  column := .columnRef i
  constant := .constant (.temporal .timestampNs ns)
  value := .temporal .timestampNs ns
  ns := ns
  resolves := hcol
  constant_eq := evalConstant_constant (by simp)
  value_eq := by
    rw [tryValueToEpochNsExact_temporal hc, show TemporalType.timestampNs.unitNs = 1 from rfl,
      mul_one, checked_of_inInt64 hns]
  inInt64 := hns

theorem TimePredicate.nanos_holds (hc : db.LawfulCasts) {labels : List Str}
    (hp : Planned get labels) {i : ℕ}
    (hcol : resolveColumnName get (.columnRef i) = some "timestamp".toList) (flipped : Bool)
    (op : CompareOp) {ns : ℤ} (hns : InInt64 ns) (r : LokiRow) :
    (nanos hc hcol flipped op hns).expression.Holds db (get.row labels r) ↔
      (nanos hc hcol flipped op hns).Holds r.tsNs := by
  have hconst : evalConstant db (.constant (.temporal .timestampNs ns)) =
      some (.temporal .timestampNs ns) := evalConstant_constant (by simp)
  have h := timestamp_holds hc hp hcol [] flipped op hconst r
  rw [show (finalType .timestampNs []).unitNs = 1 from rfl, mul_one,
    show coarsest [] = 1 from rfl, floorTo_one] at h
  exact h.trans (and_iff_right ⟨_, rfl⟩)

def lowerBounds (preds : List (TimePredicate db get)) : List ℤ :=
  preds.filterMap (fun p ↦ lowerBound p.op p.ns)

def upperBounds (preds : List (TimePredicate db get)) : List ℤ :=
  preds.filterMap (fun p ↦ upperBound p.op p.ns)

theorem pushTimeBound_start (bind : ScanBindData) (op : CompareOp) (ns : ℤ)
    (hstart : int64Min ≤ bind.pushedStartNs) : (pushTimeBound bind op ns).pushedStartNs =
      (lowerBound op ns).toList.foldl max bind.pushedStartNs := by
  have hmax := max_eq_left hstart
  cases op with
  | lt | ne | distinct | notDistinct => rfl
  | le =>
    simp only [pushTimeBound]
    split_ifs <;> rfl
  | gt | ge =>
    simp only [pushTimeBound, lowerBound, addStartBound]
    split_ifs with hmin
    · rw [hmin, hmax]
      rfl
    · rfl
  | eq =>
    simp only [pushTimeBound, lowerBound]
    by_cases hlast : ns = int64Max
    · rw [if_neg (not_not.mpr hlast), if_pos (Or.inr hlast)]
      rfl
    · rw [if_pos hlast, addEndBound, addStartBound]
      split_ifs with h
      · rw [h.resolve_right hlast, hmax]
        rfl
      · rfl

theorem pushTimeBound_end (bind : ScanBindData) (op : CompareOp) {ns : ℤ} (hns : ns ≤ int64Max)
    (hend : bind.pushedEndNs ≤ int64Max) : (pushTimeBound bind op ns).pushedEndNs =
      (upperBound op ns).toList.foldl min bind.pushedEndNs := by
  have hmin := min_eq_left hend
  cases op with
  | gt | ge | ne | distinct | notDistinct => rfl
  | lt =>
    simp only [pushTimeBound, upperBound, addEndBound]
    split_ifs with hmax
    · rw [hmax, hmin]
      rfl
    · rfl
  | le | eq =>
    simp only [pushTimeBound, upperBound]
    by_cases hlast : ns = int64Max
    · rw [if_neg (not_not.mpr hlast), if_pos (by omega)]
      rfl
    · rw [if_pos hlast, addEndBound]
      split_ifs with h
      · rw [show ns + 1 = int64Max by omega]
        exact hmin
      · rfl

theorem pushTimeBound_bounds (bind : ScanBindData) (op : CompareOp) {ns : ℤ} (hns : InInt64 ns)
    (hstart : int64Min ≤ bind.pushedStartNs) (hend : bind.pushedEndNs ≤ int64Max) :
    pushTimeBound bind op ns = { bind with
      pushedStartNs := (lowerBound op ns).toList.foldl max bind.pushedStartNs
      pushedEndNs := (upperBound op ns).toList.foldl min bind.pushedEndNs } := by
  rw [pushTimeBound_keeps, pushTimeBound_start bind op ns hstart,
    pushTimeBound_end bind op hns.2 hend]

theorem lowerBounds_cons (p : TimePredicate db get) (preds : List (TimePredicate db get)) :
    lowerBounds (p :: preds) = (lowerBound p.op p.ns).toList ++ lowerBounds preds := by
  rw [lowerBounds, List.filterMap_cons]
  cases lowerBound p.op p.ns <;> rfl

theorem upperBounds_cons (p : TimePredicate db get) (preds : List (TimePredicate db get)) :
    upperBounds (p :: preds) = (upperBound p.op p.ns).toList ++ upperBounds preds := by
  rw [upperBounds, List.filterMap_cons]
  cases upperBound p.op p.ns <;> rfl

theorem le_foldl_max (l : List ℤ) (a : ℤ) : a ≤ l.foldl max a := by
  by_contra h
  exact lt_irrefl _ (foldl_max_lt.mp (not_le.mp h)).1

theorem foldl_min_le (l : List ℤ) (a : ℤ) : l.foldl min a ≤ a := by
  by_contra h
  exact lt_irrefl _ (lt_foldl_min.mp (not_le.mp h)).1

theorem tryFilter_timePredicate (bind : ScanBindData) (p : TimePredicate db get) :
    (tryFilter db get bind p.expression).1 = pushTimeBound bind p.op p.ns := by
  rw [TimePredicate.expression,
    tryFilter_columnComparison p.flipped p.op bind p.resolves p.constant_eq, if_pos rfl, p.value_eq]

theorem foldl_pushFilter_bounds {st : ScanBindData × List Expression}
    (preds : List (TimePredicate db get))
    (hstart : int64Min ≤ st.1.pushedStartNs) (hend : st.1.pushedEndNs ≤ int64Max) :
    ((preds.map TimePredicate.expression).foldl (pushFilter db get) st).1 = { st.1 with
      pushedStartNs := (lowerBounds preds).foldl max st.1.pushedStartNs
      pushedEndNs := (upperBounds preds).foldl min st.1.pushedEndNs } := by
  induction preds generalizing st with
  | nil => rfl
  | cons p preds ih =>
    have hstep : (pushFilter db get st p.expression).1 = { st.1 with
        pushedStartNs := (lowerBound p.op p.ns).toList.foldl max st.1.pushedStartNs
        pushedEndNs := (upperBound p.op p.ns).toList.foldl min st.1.pushedEndNs } :=
      (tryFilter_timePredicate st.1 p).trans (pushTimeBound_bounds st.1 p.op p.inInt64 hstart hend)
    rw [List.map_cons, List.foldl_cons, ih, hstep, lowerBounds_cons, upperBounds_cons,
      List.foldl_append, List.foldl_append]
    · rw [hstep]
      exact hstart.trans (le_foldl_max _ _)
    · rw [hstep]
      exact (foldl_min_le _ _).trans hend

end Predicates

section Window

variable {db : Database} {get : LogicalGet}

structure ScanBindData.Fresh (bind : ScanBindData) : Prop extends bind.Unpushed where
  hasParamStart : bind.hasParamStart = false
  hasParamEnd : bind.hasParamEnd = false

def Satisfies (start stop : Option ℤ) (preds : List (TimePredicate db get)) (t : ℤ) : Prop :=
  (∀ s ∈ start, s ≤ t) ∧ (∀ e ∈ stop, t < e) ∧ ∀ p ∈ preds, p.Holds t

def lowers (start : Option ℤ) (preds : List (TimePredicate db get)) : List ℤ :=
  start.toList ++ lowerBounds preds

def uppers (stop : Option ℤ) (preds : List (TimePredicate db get)) : List ℤ :=
  stop.toList ++ upperBounds preds

theorem Satisfies.lowers_le {start stop : Option ℤ} {preds : List (TimePredicate db get)} {t : ℤ}
    (h : Satisfies start stop preds t) : ∀ b ∈ lowers start preds, b ≤ t := by
  intro b hb
  rcases List.mem_append.mp hb with hb | hb
  · exact h.1 b (Option.mem_toList.mp hb)
  · obtain ⟨p, hp, hb⟩ := List.mem_filterMap.mp hb
    exact lowerBound_le hb (h.2.2 p hp)

theorem Satisfies.lt_uppers {start stop : Option ℤ} {preds : List (TimePredicate db get)} {t : ℤ}
    (h : Satisfies start stop preds t) : ∀ b ∈ uppers stop preds, t < b := by
  intro b hb
  rcases List.mem_append.mp hb with hb | hb
  · exact h.2.1 b (Option.mem_toList.mp hb)
  · obtain ⟨p, hp, hb⟩ := List.mem_filterMap.mp hb
    exact lt_upperBound hb (h.2.2 p hp)

theorem scanInitGlobal_window {bind : ScanBindData} {columnIds : List ℕ} {st : ScanGlobalState}
    (h : scanInitGlobal bind columnIds = .ok st) :
    st.pager.startNs = effectiveStart bind ∧ st.pager.endNs = effectiveEnd bind := by
  unfold scanInitGlobal at h
  split_ifs at h
  obtain rfl := Except.ok.inj h
  exact ⟨rfl, rfl⟩

theorem int64Min_lt_lowerBounds {preds : List (TimePredicate db get)} :
    ∀ b ∈ lowerBounds preds, int64Min < b := by
  intro b hb
  obtain ⟨p, _, hb⟩ := List.mem_filterMap.mp hb
  obtain ⟨rfl, hne, _⟩ := lowerBound_eq_some hb
  exact lt_of_le_of_ne p.inInt64.1 (Ne.symm hne)

theorem upperBounds_lt_int64Max {preds : List (TimePredicate db get)} :
    ∀ b ∈ upperBounds preds, b < int64Max := by
  intro b hb
  obtain ⟨p, _, hb⟩ := List.mem_filterMap.mp hb
  exact (upperBound_eq_some hb).1 p.inInt64.2

variable {bind bound : ScanBindData} {nowNs : ℤ} {start stop : Option ℤ}
  {preds : List (TimePredicate db get)} (hfresh : bind.Fresh)
  (hmode : bind.pushdownMode = true ∨ preds = [])
  (hbound : resolveWindow bind nowNs start stop = some bound)

include hfresh hbound

theorem pushed_eq :
    (pushdownComplexFilter db get bound (preds.map TimePredicate.expression)).1 = { bind with
      startNs := start.getD (nowNs - nanosPerHour)
      endNs := stop.getD nowNs
      hasParamStart := start.isSome
      hasParamEnd := stop.isSome
      pushedStartNs := (lowerBounds preds).foldl max int64Min
      pushedEndNs := (upperBounds preds).foldl min int64Max } := by
  obtain ⟨hourAgo, hhour, rfl⟩ := Option.map_eq_some_iff.mp hbound
  obtain ⟨_, rfl⟩ := checked_eq_some.mp hhour
  rw [pushdownComplexFilter, foldl_pushFilter_bounds preds hfresh.startNs.ge hfresh.endNs.le]
  simp only [hfresh.startNs, hfresh.endNs, hfresh.hasParamStart, hfresh.hasParamEnd,
    Bool.false_or]

include hmode

/-- The window starts at the latest lower bound, or an hour before now if
there is none. -/
theorem effectiveStart_lt (x : ℤ) :
    effectiveStart (pushdownComplexFilter db get bound (preds.map TimePredicate.expression)).1 < x ↔
      if lowers start preds = [] then nowNs - nanosPerHour < x
      else ∀ b ∈ lowers start preds, b < x := by
  rw [pushed_eq hfresh hbound, effectiveStart]
  dsimp only
  by_cases hne : lowerBounds preds = []
  · rw [if_neg (fun h ↦ h.2 (by rw [hne]; rfl)), lowers, hne]
    cases start <;> simp
  · obtain ⟨hfold, hlt⟩ := foldl_max_of_ne_nil hne int64Min_lt_lowerBounds
    have hmode : bind.pushdownMode = true :=
      hmode.resolve_right (fun h ↦ hne (by rw [h]; rfl))
    rw [if_pos ⟨hmode, hfold⟩, lowers, if_neg (fun h ↦ hne (List.append_eq_nil_iff.mp h).2),
      List.forall_mem_append]
    cases start with
    | none => simp [hlt]
    | some s => simp [hlt]

theorem lt_effectiveEnd (x : ℤ) :
    x < effectiveEnd (pushdownComplexFilter db get bound (preds.map TimePredicate.expression)).1 ↔
      if uppers stop preds = [] then x < nowNs else ∀ b ∈ uppers stop preds, x < b := by
  rw [pushed_eq hfresh hbound, effectiveEnd]
  dsimp only
  by_cases hne : upperBounds preds = []
  · rw [if_neg (fun h ↦ h.2 (by rw [hne]; rfl)), uppers, hne]
    cases stop <;> simp
  · obtain ⟨hfold, hlt⟩ := foldl_min_of_ne_nil hne upperBounds_lt_int64Max
    have hmode : bind.pushdownMode = true :=
      hmode.resolve_right (fun h ↦ hne (by rw [h]; rfl))
    rw [if_pos ⟨hmode, hfold⟩, uppers, if_neg (fun h ↦ hne (List.append_eq_nil_iff.mp h).2),
      List.forall_mem_append]
    cases stop with
    | none => simp [hlt]
    | some e => simp [hlt]

end Window

section Samples

def apiBind : ScanBindData :=
  { jobBind with
    baseSelector := "\x7bjob=\"api\"\x7d".toList
    startNs := 2 * nanosPerHour
    endNs := 3 * nanosPerHour }

def apiFilter (op : CompareOp) : Expression :=
  .comparison op (.columnRef 0) (.constant (.temporal .timestampNs nanosPerHour))

theorem apiBind_starts (op : CompareOp) : ∃ st,
    scanInitGlobal (pushdownComplexFilter .reference jobGet apiBind [apiFilter op]).1 [0] =
      .ok st := by
  unfold scanInitGlobal
  rw [if_neg (by cases op <;> decide)]
  exact ⟨_, rfl⟩

theorem apiBind_resolved :
    resolveWindow { apiBind with startNs := 0, endNs := 0 } (3 * nanosPerHour) none none =
      some apiBind := by
  decide

end Samples

end DuckdbLoki
