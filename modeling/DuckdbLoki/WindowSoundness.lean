import DuckdbLoki.ScanWindow

namespace DuckdbLoki

variable {db : Database} {get : LogicalGet}

structure NanosComparison (get : LogicalGet) where
  flipped : Bool
  op : CompareOp
  column : ℕ
  ns : ℤ
  resolves : resolveColumnName get (.columnRef column) = some "timestamp".toList
  inInt64 : InInt64 ns

namespace NanosComparison

def expression (c : NanosComparison get) : Expression :=
  columnComparison c.flipped c.op (.columnRef c.column) (.constant (.temporal .timestampNs c.ns))

def predicate (hc : db.LawfulCasts) (c : NanosComparison get) : TimePredicate db get :=
  .nanos hc c.resolves c.flipped c.op c.inInt64

theorem predicate_holds (hc : db.LawfulCasts) {labels : List Str} (hp : Planned get labels)
    (c : NanosComparison get) (r : LokiRow) :
    c.expression.Holds db (get.row labels r) ↔ (c.predicate hc).Holds r.tsNs :=
  TimePredicate.nanos_holds hc hp c.resolves c.flipped c.op c.inInt64 r

theorem map_expression (hc : db.LawfulCasts) (cs : List (NanosComparison get)) :
    (cs.map (predicate hc)).map TimePredicate.expression = cs.map expression := by
  rw [List.map_map]
  rfl

end NanosComparison

section Residuals

theorem foldl_pushFilter_residual (preds : List (TimePredicate db get))
    (st : ScanBindData × List Expression) :
    ((preds.map TimePredicate.expression).foldl (pushFilter db get) st).2 =
      st.2 ++ preds.map TimePredicate.expression := by
  induction preds generalizing st with
  | nil => exact (List.append_nil _).symm
  | cons p preds ih =>
    have hstep : (pushFilter db get st p.expression).2 = st.2 ++ [p.expression] := by
      rw [pushFilter, TimePredicate.expression]
      dsimp only
      rw [tryFilter_timestamp_residual p.flipped p.op st.1 p.resolves p.constant_eq]
      rfl
    rw [List.map_cons, List.foldl_cons, ih, hstep, List.append_assoc]
    rfl

end Residuals

section Bounds

theorem lowerBound_inInt64 {op : CompareOp} {ns b : ℤ} (h : lowerBound op ns = some b)
    (hns : InInt64 ns) : InInt64 b := by
  rw [(lowerBound_eq_some h).1]
  exact hns

theorem upperBound_inInt64 {op : CompareOp} {ns b : ℤ} (h : upperBound op ns = some b)
    (hns : InInt64 ns) : InInt64 b := by
  obtain ⟨hlt, hb⟩ := upperBound_eq_some h
  have hle := (hlt hns.2).le
  have := hns.1
  constructor
  · omega
  · exact hle

theorem max_inInt64 {a b : ℤ} (ha : InInt64 a) (hb : InInt64 b) : InInt64 (max a b) :=
  ⟨le_max_of_le_left ha.1, max_le ha.2 hb.2⟩

theorem min_inInt64 {a b : ℤ} (ha : InInt64 a) (hb : InInt64 b) : InInt64 (min a b) :=
  ⟨le_min ha.1 hb.1, min_le_of_left_le ha.2⟩

theorem foldl_max_inInt64 {l : List ℤ} {a : ℤ} (ha : InInt64 a) (hl : ∀ b ∈ l, InInt64 b) :
    InInt64 (l.foldl max a) := by
  induction l generalizing a with
  | nil => exact ha
  | cons b l ih =>
    obtain ⟨hb, hl⟩ := List.forall_mem_cons.mp hl
    exact ih (max_inInt64 ha hb) hl

theorem foldl_min_inInt64 {l : List ℤ} {a : ℤ} (ha : InInt64 a) (hl : ∀ b ∈ l, InInt64 b) :
    InInt64 (l.foldl min a) := by
  induction l generalizing a with
  | nil => exact ha
  | cons b l ih =>
    obtain ⟨hb, hl⟩ := List.forall_mem_cons.mp hl
    exact ih (min_inInt64 ha hb) hl

theorem lowerBounds_inInt64 (preds : List (TimePredicate db get)) :
    ∀ b ∈ lowerBounds preds, InInt64 b := by
  intro b hb
  obtain ⟨p, _, hb⟩ := List.mem_filterMap.mp hb
  exact lowerBound_inInt64 hb p.inInt64

theorem upperBounds_inInt64 (preds : List (TimePredicate db get)) :
    ∀ b ∈ upperBounds preds, InInt64 b := by
  intro b hb
  obtain ⟨p, _, hb⟩ := List.mem_filterMap.mp hb
  exact upperBound_inInt64 hb p.inInt64

/-- The sentinel stands exactly where no comparison sets a bound. -/
theorem foldl_lowerBounds_eq_int64Min (preds : List (TimePredicate db get)) :
    (lowerBounds preds).foldl max int64Min = int64Min ↔ lowerBounds preds = [] := by
  constructor
  · intro h
    by_contra hne
    exact (foldl_max_of_ne_nil hne int64Min_lt_lowerBounds).1 h
  · intro h
    rw [h]
    rfl

theorem foldl_upperBounds_eq_int64Max (preds : List (TimePredicate db get)) :
    (upperBounds preds).foldl min int64Max = int64Max ↔ upperBounds preds = [] := by
  constructor
  · intro h
    by_contra hne
    exact (foldl_min_of_ne_nil hne upperBounds_lt_int64Max).1 h
  · intro h
    rw [h]
    rfl

end Bounds

section Window

variable {bind bound : ScanBindData} {nowNs : ℤ} {start stop : Option ℤ}
  {preds : List (TimePredicate db get)} (hfresh : bind.Fresh)
  (hmode : bind.pushdownMode = true ∨ preds = [])
  (hbound : resolveWindow bind nowNs start stop = some bound)

include hfresh hbound hmode

theorem effectiveStart_le {t : ℤ} (h : Satisfies start stop preds t)
    (hdefault : start = none → lowerBounds preds = [] → nowNs - nanosPerHour ≤ t) :
    effectiveStart (pushdownComplexFilter db get bound (preds.map TimePredicate.expression)).1 ≤
      t := by
  apply Int.lt_add_one_iff.mp
  rw [effectiveStart_lt hfresh hmode hbound]
  split_ifs with hnone
  · obtain ⟨hstart, hpreds⟩ := List.append_eq_nil_iff.mp hnone
    exact Int.lt_add_one_iff.mpr (hdefault (Option.toList_eq_nil_iff.mp hstart) hpreds)
  · exact fun b hb ↦ Int.lt_add_one_iff.mpr (h.lowers_le b hb)

theorem lt_effectiveEnd_of_satisfies {t : ℤ} (h : Satisfies start stop preds t)
    (hdefault : stop = none → upperBounds preds = [] → t < nowNs) :
    t < effectiveEnd
      (pushdownComplexFilter db get bound (preds.map TimePredicate.expression)).1 := by
  rw [lt_effectiveEnd hfresh hmode hbound]
  split_ifs with hnone
  · obtain ⟨hstop, hpreds⟩ := List.append_eq_nil_iff.mp hnone
    exact hdefault (Option.toList_eq_nil_iff.mp hstop) hpreds
  · exact h.lt_uppers

end Window

section Narrowing

theorem effectiveStart_inInt64 {bind : ScanBindData} (hs : InInt64 bind.startNs)
    (hp : InInt64 bind.pushedStartNs) : InInt64 (effectiveStart bind) := by
  unfold effectiveStart
  split_ifs
  · exact max_inInt64 hs hp
  · exact hp
  · exact hs

theorem effectiveEnd_inInt64 {bind : ScanBindData} (he : InInt64 bind.endNs)
    (hp : InInt64 bind.pushedEndNs) : InInt64 (effectiveEnd bind) := by
  unfold effectiveEnd
  split_ifs
  · exact min_inInt64 he hp
  · exact hp
  · exact he

theorem resolveWindow_eq_some (bind : ScanBindData) {nowNs : ℤ} (hnow : 0 ≤ nowNs)
    (hnow' : nowNs ≤ int64Max) (start stop : Option ℤ) :
    InInt64 (nowNs - nanosPerHour) ∧
      ∃ bound, resolveWindow bind nowNs start stop = some bound := by
  have hhour : InInt64 (nowNs - nanosPerHour) := by
    simp only [InInt64, int64Min, int64Max, nanosPerHour] at hnow' ⊢
    omega
  refine ⟨hhour, ?_⟩
  rw [resolveWindow, checked_of_inInt64 hhour]
  exact ⟨_, rfl⟩

structure PushedSafely (comparisons : List (NanosComparison get))
    (pushed : ScanBindData × List Expression) : Prop where
  residuals : pushed.2 = comparisons.map NanosComparison.expression
  nudge : ∀ c ∈ comparisons, c.ns ≠ int64Max → InInt64 (c.ns + 1)
  startNs : InInt64 pushed.1.pushedStartNs
  endNs : InInt64 pushed.1.pushedEndNs
  no_start : pushed.1.pushedStartNs = int64Min ↔
    ∀ c ∈ comparisons, lowerBound c.op c.ns = none
  no_end : pushed.1.pushedEndNs = int64Max ↔ ∀ c ∈ comparisons, upperBound c.op c.ns = none

variable {bind : ScanBindData} (hfresh : bind.Fresh) {nowNs : ℤ} {start stop : Option ℤ}
  (comparisons : List (NanosComparison get))

include hfresh

theorem pushedSafely (hc : db.LawfulCasts) {bound : ScanBindData}
    (hbound : resolveWindow bind nowNs start stop = some bound) :
    PushedSafely comparisons
      (pushdownComplexFilter db get bound (comparisons.map NanosComparison.expression)) := by
  rw [← NanosComparison.map_expression hc]
  have hpushed : (pushdownComplexFilter db get bound ((comparisons.map
      (NanosComparison.predicate hc)).map TimePredicate.expression)).1 = _ :=
    pushed_eq hfresh hbound
  constructor
  · rw [pushdownComplexFilter, foldl_pushFilter_residual, NanosComparison.map_expression hc]
    rfl
  · intro c _ hne
    have hlt := lt_of_le_of_ne c.inInt64.2 hne
    exact ⟨c.inInt64.1.trans (Int.le_add_one le_rfl), Int.add_one_le_of_lt hlt⟩
  · rw [hpushed]
    exact foldl_max_inInt64 (by decide) (lowerBounds_inInt64 _)
  · rw [hpushed]
    exact foldl_min_inInt64 (by decide) (upperBounds_inInt64 _)
  · rw [hpushed]
    apply (foldl_lowerBounds_eq_int64Min _).trans
    rw [lowerBounds, List.filterMap_map, List.filterMap_eq_nil_iff]
    rfl
  · rw [hpushed]
    apply (foldl_upperBounds_eq_int64Max _).trans
    rw [upperBounds, List.filterMap_map, List.filterMap_eq_nil_iff]
    rfl

theorem window_inInt64 (hc : db.LawfulCasts) {bound : ScanBindData}
    (hbound : resolveWindow bind nowNs start stop = some bound)
    (hhour : InInt64 (nowNs - nanosPerHour)) (hnow : InInt64 nowNs)
    (hstart : ∀ s ∈ start, InInt64 s) (hstop : ∀ e ∈ stop, InInt64 e) :
    let pushed := (pushdownComplexFilter db get bound
      (comparisons.map NanosComparison.expression)).1
    InInt64 (effectiveStart pushed) ∧ InInt64 (effectiveEnd pushed) := by
  have hsafe := pushedSafely hfresh comparisons hc hbound
  rw [← NanosComparison.map_expression hc] at hsafe ⊢
  have hpushed : (pushdownComplexFilter db get bound ((comparisons.map
      (NanosComparison.predicate hc)).map TimePredicate.expression)).1 = _ :=
    pushed_eq hfresh hbound
  constructor
  · apply effectiveStart_inInt64 _ hsafe.startNs
    rw [hpushed]
    cases start with
    | none => exact hhour
    | some s => exact hstart s rfl
  · apply effectiveEnd_inInt64 _ hsafe.endNs
    rw [hpushed]
    cases stop with
    | none => exact hnow
    | some e => exact hstop e rfl

theorem window_covers (hc : db.LawfulCasts) {labels : List Str} (hp : Planned get labels)
    (hmode : bind.pushdownMode = true ∨ comparisons = []) {bound : ScanBindData}
    (hbound : resolveWindow bind nowNs start stop = some bound) {r : LokiRow}
    (hr : ∀ c ∈ comparisons, c.expression.Holds db (get.row labels r))
    (hstart : ∀ s ∈ start, s ≤ r.tsNs) (hstop : ∀ e ∈ stop, r.tsNs < e) :
    let pushed := (pushdownComplexFilter db get bound
      (comparisons.map NanosComparison.expression)).1
    (start = none → pushed.pushedStartNs = int64Min → nowNs - nanosPerHour ≤ r.tsNs) →
      (stop = none → pushed.pushedEndNs = int64Max → r.tsNs < nowNs) →
      effectiveStart pushed ≤ r.tsNs ∧ r.tsNs < effectiveEnd pushed := by
  rw [← NanosComparison.map_expression hc]
  intro pushed hdefaultStart hdefaultEnd
  have hpushed : pushed = _ := pushed_eq hfresh hbound
  have hmode : bind.pushdownMode = true ∨ comparisons.map (NanosComparison.predicate hc) = [] :=
    hmode.imp_right List.map_eq_nil_iff.mpr
  have hsat : Satisfies start stop (comparisons.map (NanosComparison.predicate hc)) r.tsNs := by
    refine ⟨hstart, hstop, ?_⟩
    intro p hpred
    obtain ⟨c, hmem, rfl⟩ := List.mem_map.mp hpred
    exact (c.predicate_holds hc hp r).mp (hr c hmem)
  constructor
  · apply effectiveStart_le hfresh hmode hbound hsat
    intro hnone hnil
    apply hdefaultStart hnone
    rw [hpushed]
    exact (foldl_lowerBounds_eq_int64Min _).mpr hnil
  · apply lt_effectiveEnd_of_satisfies hfresh hmode hbound hsat
    intro hnone hnil
    apply hdefaultEnd hnone
    rw [hpushed]
    exact (foldl_upperBounds_eq_int64Max _).mpr hnil

/-- The window of a scan keeps every instant that satisfies the comparisons of
the timestamp, the explicit bounds, and the default bound of a side without
another one. -/
theorem window_narrows_soundly (hc : db.LawfulCasts) {labels : List Str} (hp : Planned get labels)
    (hmode : bind.pushdownMode = true ∨ comparisons = []) (hnow : 0 ≤ nowNs)
    (hnow' : nowNs ≤ int64Max) (hstart : ∀ s ∈ start, InInt64 s) (hstop : ∀ e ∈ stop, InInt64 e) :
    ∃ bound, resolveWindow bind nowNs start stop = some bound ∧
      let pushed := pushdownComplexFilter db get bound
        (comparisons.map NanosComparison.expression)
      PushedSafely comparisons pushed ∧
        ∀ columnIds st, scanInitGlobal pushed.1 columnIds = .ok st →
          InInt64 st.pager.startNs ∧ InInt64 st.pager.endNs ∧
            ∀ r : LokiRow, (∀ c ∈ comparisons, c.expression.Holds db (get.row labels r)) →
              (∀ s ∈ start, s ≤ r.tsNs) → (∀ e ∈ stop, r.tsNs < e) →
              (start = none → pushed.1.pushedStartNs = int64Min →
                nowNs - nanosPerHour ≤ r.tsNs) →
              (stop = none → pushed.1.pushedEndNs = int64Max → r.tsNs < nowNs) →
              st.pager.startNs ≤ r.tsNs ∧ r.tsNs < st.pager.endNs := by
  obtain ⟨hhour, bound, hbound⟩ := resolveWindow_eq_some bind hnow hnow' start stop
  refine ⟨bound, hbound, pushedSafely hfresh comparisons hc hbound, ?_⟩
  intro columnIds st hst
  obtain ⟨hpagerStart, hpagerEnd⟩ := scanInitGlobal_window hst
  have hnow64 : InInt64 nowNs := ⟨le_trans (by decide) hnow, hnow'⟩
  obtain ⟨hin, hin'⟩ :=
    window_inInt64 hfresh comparisons hc hbound hhour hnow64 hstart hstop
  rw [hpagerStart, hpagerEnd]
  refine ⟨hin, hin', ?_⟩
  intro r hr hrstart hrstop
  exact window_covers hfresh comparisons hc hp hmode hbound hr hrstart hrstop

omit hfresh

def sinceHour : NanosComparison jobGet := ⟨false, .ge, 0, nanosPerHour, rfl, by decide⟩

theorem window_narrows_soundly_since : ∃ st,
    scanInitGlobal (pushdownComplexFilter .reference jobGet apiBind [sinceHour.expression]).1 [0] =
        .ok st ∧
      st.pager.startNs ≤ nanosPerHour ∧ nanosPerHour < st.pager.endNs := by
  obtain ⟨st, hst⟩ := apiBind_starts .ge
  have hfresh : ({ apiBind with startNs := 0, endNs := 0 } : ScanBindData).Fresh :=
    ⟨⟨rfl, rfl, rfl, rfl⟩, rfl, rfl⟩
  have hnow : 0 ≤ 3 * nanosPerHour := by decide
  have hnone : ∀ x ∈ (none : Option ℤ), InInt64 x := nofun
  obtain ⟨bound, hbound, _, hwindow⟩ := window_narrows_soundly hfresh [sinceHour]
    Database.reference_lawfulCasts jobGet_planned (Or.inl rfl) hnow (by decide) hnone hnone
  obtain rfl := Option.some.inj (apiBind_resolved.symm.trans hbound)
  obtain ⟨_, _, hrows⟩ := hwindow [0] st hst
  refine ⟨st, hst, hrows ⟨nanosPerHour, [], .empty, .empty⟩ ?_ nofun nofun ?_ ?_⟩
  · intro c hc
    rw [List.mem_singleton.mp hc]
    decide
  · intro _ hunpushed
    exact absurd hunpushed (by decide)
  · intro _ _
    decide

end Narrowing

end DuckdbLoki
