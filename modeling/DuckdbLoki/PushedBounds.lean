import DuckdbLoki.Binding
import DuckdbLoki.WindowSoundness

namespace DuckdbLoki

section Resolved

variable {nowNs ns : ℤ}

theorem resolveTimeBound_inInt64 {given : TimeArgument}
    (h : (resolveTimeBound nowNs given).run = some (.ok ns)) : InInt64 ns := by
  cases given with
  | interval months days micros =>
    obtain ⟨_, _, h⟩ := bind_eq_ok h
    exact (tryAddNanos_true (orThrow_eq_ok h)).1
  | other cast =>
    unfold resolveTimeBound valueToEpochNs at h
    dsimp only at h
    split at h
    · cases h
    · cases h
    · split_ifs at h with hfits
      · rw [← Except.ok.inj (Option.some.inj h)]
        exact hfits
      · cases h

theorem resolveBound_inInt64 {defaultNs : ℤ} (hdefault : InInt64 defaultNs)
    {given : Option TimeArgument} (h : (resolveBound nowNs defaultNs given).run = some (.ok ns)) :
    InInt64 ns := by
  cases given with
  | none =>
    rw [← Except.ok.inj (Option.some.inj h)]
    exact hdefault
  | some given => exact resolveTimeBound_inInt64 h

variable {m : SecretManager} {store : List Secret} {params : ScanParams} {fn : Str}
  {result bind : ScanBindData}

theorem Resolved.inInt64 (h : Resolved m store params nowNs fn result bind)
    (hnow : InInt64 nowNs) : InInt64 bind.startNs ∧ InInt64 bind.endNs := by
  obtain ⟨hourAgo, hhour, hstart⟩ := h.start
  refine ⟨resolveBound_inInt64 ?_ hstart, resolveBound_inInt64 hnow h.stop⟩
  obtain ⟨hfits, rfl⟩ := checked_eq_some.mp hhour
  exact hfits

end Resolved

section Step

variable (db : Database) (get : LogicalGet)

def Database.NanosFit : Prop := ∀ v ns, tryValueToEpochNsExact db v = some ns → InInt64 ns

theorem Database.reference_nanosFit : Database.reference.NanosFit := by
  intro v ns h
  unfold tryValueToEpochNsExact at h
  cases v with
  | temporal t count =>
    rw [Database.reference_lawfulCasts.temporal, castTemporal] at h
    split_ifs at h with hrange
    rw [← Option.some.inj h]
    exact hrange
  | _ => cases h

variable {db get} {bind : ScanBindData}

/-- Nothing but a comparison of the timestamp moves a pushed bound. -/
theorem tryFilter_bounds (bind : ScanBindData) (e : Expression) :
    ((tryFilter db get bind e).1.pushedStartNs = bind.pushedStartNs ∧
        (tryFilter db get bind e).1.pushedEndNs = bind.pushedEndNs) ∨
      ∃ op left right op' v ns, e = .comparison op left right ∧
        comparisonSides db get op left right = some (op', "timestamp".toList, v) ∧
        tryValueToEpochNsExact db v = some ns ∧
        (tryFilter db get bind e).1 = pushTimeBound bind op' ns := by
  unfold tryFilter
  split
  · rename_i fname children
    left
    rcases tryFunction_cases db get bind fname children true with h | ⟨_, _, _, _, _, _, _, _, _, h⟩
    all_goals
      rw [h]
      exact ⟨rfl, rfl⟩
  · rename_i type children _
    left
    rcases tryInList_cases db get bind type children with h | ⟨_, _, _, _, _, _, _, _, _, _, h⟩
    all_goals
      rw [h]
      exact ⟨rfl, rfl⟩
  · rename_i op left right
    unfold tryComparison
    split
    · exact Or.inl ⟨rfl, rfl⟩
    rename_i op' name v hsides
    split_ifs with htime
    · split
      · exact Or.inl ⟨rfl, rfl⟩
      · rename_i ns hns
        exact Or.inr ⟨op, left, right, op', v, ns, rfl, htime ▸ hsides, hns, rfl⟩
    · left
      split <;> exact ⟨rfl, rfl⟩
    · exact Or.inl ⟨rfl, rfl⟩
  · rename_i fname children
    left
    rcases tryFunction_cases db get bind fname children false with
      h | ⟨_, _, _, _, _, _, _, _, _, h⟩
    all_goals
      rw [h]
      exact ⟨rfl, rfl⟩
  · exact Or.inl ⟨rfl, rfl⟩

structure ScanBindData.Timed (bind : ScanBindData) : Prop where
  startNs : InInt64 bind.pushedStartNs
  endNs : InInt64 bind.pushedEndNs

theorem ScanBindData.Timed.initial (hstart : bind.pushedStartNs = int64Min)
    (hend : bind.pushedEndNs = int64Max) : bind.Timed := by
  constructor
  · rw [hstart]
    decide
  · rw [hend]
    decide

theorem succ_inInt64 {ns : ℤ} (hns : InInt64 ns) (hne : ns ≠ int64Max) : InInt64 (ns + 1) :=
  ⟨hns.1.trans (Int.le_add_one le_rfl), Int.add_one_le_of_lt (lt_of_le_of_ne hns.2 hne)⟩

theorem ScanBindData.Timed.pushTimeBound (h : bind.Timed) (op : CompareOp) {ns : ℤ}
    (hns : InInt64 ns) : (pushTimeBound bind op ns).Timed := by
  cases op with
  | gt | ge => exact ⟨max_inInt64 h.startNs hns, h.endNs⟩
  | lt => exact ⟨h.startNs, min_inInt64 h.endNs hns⟩
  | le =>
    simp only [DuckdbLoki.pushTimeBound]
    split_ifs with hne
    · exact ⟨h.startNs, min_inInt64 h.endNs (succ_inInt64 hns hne)⟩
    · exact h
  | eq =>
    simp only [DuckdbLoki.pushTimeBound]
    split_ifs with hne
    · exact ⟨max_inInt64 h.startNs hns, min_inInt64 h.endNs (succ_inInt64 hns hne)⟩
    · exact h
  | ne | distinct | notDistinct => exact h

theorem ScanBindData.Timed.tryFilter (hfit : db.NanosFit) (h : bind.Timed) (e : Expression) :
    (tryFilter db get bind e).1.Timed := by
  have hbounds := @tryFilter_bounds db get bind e
  rcases hbounds with ⟨hstart, hend⟩ | ⟨_, _, _, op, v, ns, _, _, hns, heq⟩
  · exact ⟨hstart ▸ h.startNs, hend ▸ h.endNs⟩
  · rw [heq]
    exact h.pushTimeBound op (hfit v ns hns)

theorem ScanBindData.Timed.pushdown (hfit : db.NanosFit) (h : bind.Timed)
    (filters : List Expression) : (pushdownComplexFilter db get bind filters).1.Timed := by
  have hfold : ∀ st : ScanBindData × List Expression, st.1.Timed →
      (filters.foldl (pushFilter db get) st).1.Timed := by
    induction filters with
    | nil => exact fun _ hst ↦ hst
    | cons e filters ih => exact fun st hst ↦ ih _ (hst.tryFilter hfit e)
  exact hfold (bind, []) h

end Step

section Plans

variable {m : SecretManager} {store : List Secret} {params : ScanParams} {nowNs : ℤ}
  {db : Database} {fn text : Str} {pushed : ScanBindData} {types : List ColumnType}
  {names : List Str}

theorem effective_inInt64 (hwindow : InInt64 pushed.startNs ∧ InInt64 pushed.endNs)
    (h : pushed.Timed) : InInt64 (effectiveStart pushed) ∧ InInt64 (effectiveEnd pushed) :=
  ⟨effectiveStart_inInt64 hwindow.1 h.startNs, effectiveEnd_inInt64 hwindow.2 h.endNs⟩

theorem Plans.inInt64 (h : Plans m store params nowNs db fn text pushed types names)
    (hnow : InInt64 nowNs) (hfit : db.NanosFit) :
    InInt64 (effectiveStart pushed) ∧ InInt64 (effectiveEnd pushed) := by
  cases h with
  | lokiScan h =>
    obtain ⟨_, _, hresolved, _⟩ := resolved_of_lokiScanBind h
    refine effective_inInt64 (hresolved.inInt64 hnow) (.initial ?_ ?_)
    · rw [hresolved.frame]
    · rw [hresolved.frame]
  | @loki _ bind _ _ _ get filters _ h hpushed =>
    obtain ⟨_, hresolved, _⟩ := resolved_of_lokiBind h
    have htimed : bind.Timed := by
      apply ScanBindData.Timed.initial
      · rw [hresolved.frame]
      · rw [hresolved.frame]
    have honto : PushedOnto bind pushed := by
      have := pushedOnto_foldl db get filters (bind, [])
      rwa [← pushdownComplexFilter, hpushed] at this
    have hpushedTimed : (pushdownComplexFilter db get bind filters).1.Timed :=
      htimed.pushdown hfit filters
    rw [hpushed] at hpushedTimed
    have hsame : pushed.startNs = bind.startNs ∧ pushed.endNs = bind.endNs := by
      rw [honto.frame]
      exact ⟨rfl, rfl⟩
    refine effective_inInt64 ?_ hpushedTimed
    rw [hsame.1, hsame.2]
    exact hresolved.inInt64 hnow

end Plans

section Spans

variable (db : Database) (get : LogicalGet)

/-- Where the sides are the timestamp and a constant, the timestamp is not cast
and the constant is in nanoseconds. -/
def PlainTime (column constant : Expression) : Prop :=
  ∀ v, resolveColumnName get column = some "timestamp".toList → evalConstant db constant = some v →
    IsColumnRef column ∧ ∃ ns, v = .temporal .timestampNs ns

def TimePlain : Expression → Prop
  | .comparison _ left right => PlainTime db get left right ∧ PlainTime db get right left
  | _ => True

variable {db get} {bind : ScanBindData} {t : ℤ}

structure ScanBindData.Spans (bind : ScanBindData) (t : ℤ) : Prop where
  startNs : bind.pushedStartNs ≤ t
  endNs : bind.pushedEndNs ≠ int64Max → t < bind.pushedEndNs

theorem lt_min_of_ne {a b : ℤ} (h : a ≠ int64Max → t < a) (hb : t < b) :
    min a b ≠ int64Max → t < min a b := by
  intro hne
  by_cases hmax : a = int64Max
  · omega
  · exact lt_min (h hmax) hb

theorem ScanBindData.Spans.pushTimeBound {op : CompareOp} {ns : ℤ} (h : bind.Spans t)
    (ht : op.Rel t ns) : (pushTimeBound bind op ns).Spans t := by
  cases op with
  | gt => exact ⟨max_le h.startNs (le_of_lt ht), h.endNs⟩
  | ge => exact ⟨max_le h.startNs ht, h.endNs⟩
  | lt => exact ⟨h.startNs, lt_min_of_ne h.endNs ht⟩
  | le =>
    simp only [DuckdbLoki.pushTimeBound]
    split_ifs
    · exact ⟨h.startNs, lt_min_of_ne h.endNs (Int.lt_add_one_iff.mpr ht)⟩
    · exact h
  | eq =>
    have heq : t = ns := ht
    simp only [DuckdbLoki.pushTimeBound]
    split_ifs
    · exact ⟨max_le h.startNs (ge_of_eq heq),
        lt_min_of_ne h.endNs (Int.lt_add_one_iff.mpr (le_of_eq heq))⟩
    · exact h
  | ne | distinct | notDistinct => exact h

theorem rel_of_holds (hc : db.LawfulCasts) {labels : List Str} (hp : Planned get labels)
    {op op' : CompareOp} {left right : Expression} {v : Value} {ns : ℤ}
    (hplain : TimePlain db get (.comparison op left right))
    (hsides : comparisonSides db get op left right = some (op', "timestamp".toList, v))
    (hns : tryValueToEpochNsExact db v = some ns) {r : LokiRow}
    (hholds : (Expression.comparison op left right).Holds db (get.row labels r)) :
    op'.Rel r.tsNs ns := by
  obtain ⟨column, constant, hcol, hconst, hcase⟩ := comparisonSides_eq_some hsides
  have hside : PlainTime db get column constant := by
    rcases hcase with ⟨_, rfl, rfl⟩ | ⟨_, rfl, rfl⟩
    · exact hplain.1
    · exact hplain.2
  obtain ⟨⟨i, rfl⟩, count, rfl⟩ := hside v hcol hconst
  rw [tryValueToEpochNsExact_temporal hc] at hns
  obtain ⟨_, hcount⟩ := checked_eq_some.mp hns
  have hcompare : ∃ flipped, Expression.comparison op left right =
      columnComparison flipped op' (castThrough (([] : List TemporalType).map .temporal)
        (.columnRef i)) constant := by
    rcases hcase with ⟨rfl, rfl, rfl⟩ | ⟨rfl, rfl, rfl⟩
    · exact ⟨false, rfl⟩
    · refine ⟨true, ?_⟩
      rw [columnComparison, if_pos rfl, flip_flip]
      rfl
  obtain ⟨flipped, hcompare⟩ := hcompare
  rw [hcompare] at hholds
  have hrel := ((timestamp_holds hc hp hcol [] flipped op' hconst r).mp hholds).2
  have hone : coarsest [] = 1 := rfl
  rw [hone, floorTo_one] at hrel
  rw [← hcount]
  exact hrel

theorem ScanBindData.Spans.tryFilter (hc : db.LawfulCasts) {labels : List Str}
    (hp : Planned get labels) {e : Expression} (hplain : TimePlain db get e) {r : LokiRow}
    (hholds : e.Holds db (get.row labels r)) (h : bind.Spans r.tsNs) :
    (tryFilter db get bind e).1.Spans r.tsNs := by
  have hbounds := @tryFilter_bounds db get bind e
  rcases hbounds with ⟨hstart, hend⟩ | ⟨op, left, right, op', v, ns, rfl, hsides, hns, heq⟩
  · exact ⟨hstart ▸ h.startNs, hend ▸ h.endNs⟩
  · rw [heq]
    exact h.pushTimeBound (rel_of_holds hc hp hplain hsides hns hholds)

/-- An entry that satisfies the filters is within the bounds that are pushed for
them. -/
theorem ScanBindData.Spans.pushdown (hc : db.LawfulCasts) {labels : List Str}
    (hp : Planned get labels) {filters : List Expression}
    (hplain : ∀ e ∈ filters, TimePlain db get e) {r : LokiRow}
    (hholds : ∀ e ∈ filters, e.Holds db (get.row labels r)) (h : bind.Spans r.tsNs) :
    (pushdownComplexFilter db get bind filters).1.Spans r.tsNs := by
  have hfold : ∀ st : ScanBindData × List Expression, st.1.Spans r.tsNs →
      (filters.foldl (pushFilter db get) st).1.Spans r.tsNs := by
    induction filters with
    | nil => exact fun _ hst ↦ hst
    | cons e filters ih =>
      obtain ⟨hfirst, hrest⟩ := List.forall_mem_cons.mp hplain
      obtain ⟨hone, hall⟩ := List.forall_mem_cons.mp hholds
      exact fun st hst ↦ ih hrest hall _ (hst.tryFilter hc hp hfirst hone)
  exact hfold (bind, []) h

/-- The instant is one that a scan is asked for, besides its filters: it keeps
the bounds that are given, and on a side without any bound the default. -/
structure ScanBindData.Asks (pushed : ScanBindData) (t : ℤ) : Prop where
  startNs : pushed.hasParamStart = true ∨ pushed.pushedStartNs = int64Min → pushed.startNs ≤ t
  endNs : pushed.hasParamEnd = true ∨ pushed.pushedEndNs = int64Max → t < pushed.endNs

instance (pushed : ScanBindData) (t : ℤ) : Decidable (pushed.Asks t) :=
  decidable_of_iff ((pushed.hasParamStart = true ∨ pushed.pushedStartNs = int64Min →
    pushed.startNs ≤ t) ∧ (pushed.hasParamEnd = true ∨ pushed.pushedEndNs = int64Max →
      t < pushed.endNs)) ⟨fun h ↦ ⟨h.1, h.2⟩, fun h ↦ ⟨h.1, h.2⟩⟩

theorem effective_iff (hmode : bind.pushdownMode = true) (h : bind.Spans t) :
    effectiveStart bind ≤ t ∧ t < effectiveEnd bind ↔ bind.Asks t := by
  have hstart := h.startNs
  have hend := h.endNs
  have hfirst : effectiveStart bind ≤ t ↔
      (bind.hasParamStart = true ∨ bind.pushedStartNs = int64Min → bind.startNs ≤ t) := by
    unfold effectiveStart
    split_ifs with hpushed hparam
    · rw [max_le_iff, and_iff_left hstart]
      exact ⟨fun hle _ ↦ hle, fun hle ↦ hle (Or.inl hparam)⟩
    · refine iff_of_true hstart (fun hnone ↦ ?_)
      exact absurd (hnone.resolve_left hparam) hpushed.2
    · refine ⟨fun hle _ ↦ hle, fun hle ↦ hle (Or.inr ?_)⟩
      exact not_not.mp (fun hne ↦ hpushed ⟨hmode, hne⟩)
  have hlast : t < effectiveEnd bind ↔
      (bind.hasParamEnd = true ∨ bind.pushedEndNs = int64Max → t < bind.endNs) := by
    unfold effectiveEnd
    split_ifs with hpushed hparam
    · rw [lt_min_iff, and_iff_left (hend hpushed.2)]
      exact ⟨fun hlt _ ↦ hlt, fun hlt ↦ hlt (Or.inl hparam)⟩
    · refine iff_of_true (hend hpushed.2) (fun hnone ↦ ?_)
      exact absurd (hnone.resolve_left hparam) hpushed.2
    · refine ⟨fun hlt _ ↦ hlt, fun hlt ↦ hlt (Or.inr ?_)⟩
      exact not_not.mp (fun hne ↦ hpushed ⟨hmode, hne⟩)
  rw [hfirst, hlast]
  exact ⟨fun h ↦ ⟨h.1, h.2⟩, fun h ↦ ⟨h.startNs, h.endNs⟩⟩

end Spans

end DuckdbLoki
