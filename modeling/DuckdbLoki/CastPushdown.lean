import DuckdbLoki.CastChains
import DuckdbLoki.Pushdown

namespace DuckdbLoki

structure ScanBindData.Unpushed (bind : ScanBindData) : Prop where
  matchers : bind.pushedMatchers = []
  lineFilters : bind.pushedLineFilters = []
  startNs : bind.pushedStartNs = int64Min
  endNs : bind.pushedEndNs = int64Max

def ScanBindData.Covers (engine : Regex.Engine) (bind : ScanBindData) (r : LokiRow) : Prop :=
  bind.Accepts engine r ∧ bind.pushedStartNs ≤ r.tsNs ∧
    (bind.pushedEndNs ≠ int64Max → r.tsNs < bind.pushedEndNs)

instance (engine : Regex.Engine) (bind : ScanBindData) (r : LokiRow) :
    Decidable (bind.Covers engine r) := inferInstanceAs (Decidable (_ ∧ _ ∧ (_ → _)))

/-- What is pushed for a predicate lets through every entry it is true for. -/
def KeepsWanted (db : Database) (get : LogicalGet) (bind : ScanBindData) (e : Expression) : Prop :=
  ∀ r : LokiRow, InInt64 r.tsNs → r.labels.Nonempty →
    e.Holds db (get.row bind.labelColumns r) → (tryFilter db get bind e).1.Covers db.regex r

section Timestamps

variable {db : Database} {get : LogicalGet} {bind : ScanBindData}

/-- The chain of casts fails from `n` on to the end of its coarsest unit. -/
def Uncastable (db : Database) (types : List TemporalType) (n : ℤ) : Prop :=
  ∀ ts, InInt64 ts → n ≤ ts → floorTo (coarsest types) ts = floorTo (coarsest types) n →
    castValue db (types.map .temporal) (.temporal .timestampNs ts) = none

/-- The window may end at `n` when the chain of casts is compared with it. -/
def EndsWhole (db : Database) (types : List TemporalType) (n : ℤ) : Prop :=
  int64Max ≤ n ∨ coarsest types ∣ n ∨ Uncastable db types n

def TimeSafe (db : Database) (types : List TemporalType) (op : CompareOp) (ns : ℤ) : Prop :=
  InInt64 ns →
    match op with
    | .lt => EndsWhole db types ns
    | .le => EndsWhole db types (ns + 1)
    | .eq => coarsest types = 1 ∨ ¬ coarsest types ∣ ns
    | _ => True

variable {types : List TemporalType}

/-- The entries rounded to before an end of the window lie in the window just
where it may end there. -/
theorem endsWhole_iff {n : ℤ} : EndsWhole db types n ↔ ∀ ts, InInt64 ts →
    (∃ w, castValue db (types.map .temporal) (.temporal .timestampNs ts) = some w) →
    floorTo (coarsest types) ts < n → n ≠ int64Max → ts < n := by
  have hu := coarsest_pos types
  constructor
  · rintro h ts hts ⟨w, hw⟩ hlt hne
    by_contra hge
    push Not at hge
    rcases h with h | h | h
    · have := hts.2
      omega
    · exact absurd (le_floorTo hu h hge) (not_le.mpr hlt)
    · have hsame : floorTo (coarsest types) ts = floorTo (coarsest types) n :=
        (floorTo_eq (dvd_floorTo _ ts) hlt.le (hge.trans_lt (lt_floorTo_add hu ts))).symm
      rw [h ts hts hge hsame] at hw
      cases hw
  · intro h
    by_contra hends
    simp only [EndsWhole, Uncastable, not_or, not_forall, not_le] at hends
    obtain ⟨hmax, hdvd, ts, hts, hge, hsame, hsome⟩ := hends
    have hlt : floorTo (coarsest types) n < n :=
      lt_of_le_of_ne (floorTo_le hu n) (fun heq ↦ hdvd (heq ▸ dvd_floorTo _ n))
    have := h ts hts (Option.ne_none_iff_exists'.mp hsome) (hsame ▸ hlt) hmax.ne
    omega

theorem lt_int64Max_of_dvd {n : ℤ} (hone : coarsest types ≠ 1) (hdvd : coarsest types ∣ n)
    (hn : InInt64 n) : n + 1 < int64Max := by
  obtain ⟨t, ht⟩ := exists_coarsest types
  rw [ht] at hone hdvd
  obtain ⟨k, rfl⟩ := hdvd
  have hle := hn.2
  cases t
  all_goals
    simp only [TemporalType.unitNs, int64Max] at hone hle ⊢
    omega

theorem ScanBindData.Unpushed.accepts (h : bind.Unpushed) (engine : Regex.Engine) (r : LokiRow) :
    bind.Accepts engine r := by
  simp [ScanBindData.Accepts, h.matchers, h.lineFilters]

theorem ScanBindData.Unpushed.covers (h : bind.Unpushed) (engine : Regex.Engine) {r : LokiRow}
    (hts : InInt64 r.tsNs) : bind.Covers engine r :=
  ⟨h.accepts engine r, by rw [h.startNs]; exact hts.1, fun hne ↦ absurd h.endNs hne⟩

def WindowHolds (op : CompareOp) (ns ts : ℤ) : Prop :=
  match op with
  | .gt | .ge => ns ≤ ts
  | .lt => ns ≠ int64Max → ts < ns
  | .le => ns ≠ int64Max → ns + 1 ≠ int64Max → ts < ns + 1
  | .eq => ns ≠ int64Max → ns ≤ ts ∧ (ns + 1 ≠ int64Max → ts < ns + 1)
  | _ => True

theorem covers_pushTimeBound (h : bind.Unpushed) (engine : Regex.Engine) (op : CompareOp) {ns : ℤ}
    (hns : InInt64 ns) {r : LokiRow} (hts : InInt64 r.tsNs) :
    (pushTimeBound bind op ns).Covers engine r ↔ WindowHolds op ns r.tsNs := by
  have hacc : (pushTimeBound bind op ns).Accepts engine r :=
    accepts_pushTimeBound.mpr (h.accepts engine r)
  unfold ScanBindData.Covers WindowHolds
  rw [and_iff_right hacc]
  have hstart : int64Min ≤ r.tsNs := hts.1
  have hmax : max int64Min ns = ns := max_eq_right hns.1
  have hmin : min int64Max ns = ns := min_eq_right hns.2
  have hmin' : ns ≠ int64Max → min int64Max (ns + 1) = ns + 1 := by
    have := hns.2
    omega
  cases op with
  | gt | ge => simp [pushTimeBound, addStartBound, h.startNs, h.endNs, hmax]
  | lt => simp [pushTimeBound, addEndBound, h.startNs, h.endNs, hmin, hstart]
  | le =>
    by_cases hne : ns = int64Max
    · simp [pushTimeBound, h.startNs, h.endNs, hne, hstart]
    · simp [pushTimeBound, addEndBound, h.startNs, h.endNs, hne, hmin', hstart]
  | eq =>
    by_cases hne : ns = int64Max
    · simp [pushTimeBound, h.startNs, h.endNs, hne, hstart]
    · simp [pushTimeBound, addStartBound, addEndBound, h.startNs, h.endNs, hne, hmax, hmin']
  | ne | distinct | notDistinct => simp [pushTimeBound, h.startNs, h.endNs, hstart]

def CompareOp.Rel : CompareOp → ℤ → ℤ → Prop
  | .eq | .notDistinct => (· = ·)
  | .ne | .distinct => (· ≠ ·)
  | .lt => (· < ·)
  | .gt => (· > ·)
  | .le => (· ≤ ·)
  | .ge => (· ≥ ·)

theorem CompareOp.rel_mul {op : CompareOp} {a b u : ℤ} (hu : 0 < u) :
    op.Rel (a * u) (b * u) ↔ op.Rel a b := by
  cases op with
  | eq | notDistinct => exact Int.mul_eq_mul_right_iff hu.ne'
  | ne | distinct => exact (Int.mul_eq_mul_right_iff hu.ne').not
  | lt | gt => exact Int.mul_lt_mul_right hu
  | le | ge => exact Int.mul_le_mul_right hu

variable (hc : db.LawfulCasts)

include hc

theorem compareValues_temporal (op : CompareOp) (t : TemporalType) (a b : ℤ) :
    compareValues db op (.temporal t a) (.temporal t b) = .boolean true ↔ op.Rel a b := by
  cases op <;> simp [compareValues, CompareOp.Rel, hc.less_temporal]

theorem tryValueToEpochNsExact_temporal (t : TemporalType) (count : ℤ) :
    tryValueToEpochNsExact db (.temporal t count) = checked (count * t.unitNs) := by
  have hunit : count * t.unitNs / TemporalType.timestampNs.unitNs = count * t.unitNs :=
    Int.ediv_one _
  simp only [tryValueToEpochNsExact, hc.temporal, castTemporal, hunit, checked]
  by_cases h : InInt64 (count * t.unitNs)
  · rw [if_pos h, if_pos (show TemporalType.timestampNs.InRange _ from h)]
  · rw [if_neg h, if_neg (show ¬ TemporalType.timestampNs.InRange _ from h)]

theorem eqSafe_iff {n : ℤ} (hn : InInt64 n) : coarsest types = 1 ∨ ¬ coarsest types ∣ n ↔
    ∀ ts, InInt64 ts →
      (∃ w, castValue db (types.map .temporal) (.temporal .timestampNs ts) = some w) →
      floorTo (coarsest types) ts = n → WindowHolds .eq n ts := by
  constructor
  · intro h ts _ _ heq
    have hone : coarsest types = 1 := h.resolve_right (not_not.mpr (heq ▸ dvd_floorTo _ ts))
    rw [hone, floorTo_one] at heq
    exact fun _ ↦ ⟨heq.ge, fun _ ↦ by omega⟩
  · intro h
    by_contra hsafe
    obtain ⟨hone, hdvd⟩ : coarsest types ≠ 1 ∧ coarsest types ∣ n := by
      simpa only [not_or, not_not] using hsafe
    -- the next instant is rounded to the constant and left out
    have hu := coarsest_pos types
    have hnext := lt_int64Max_of_dvd hone hdvd hn
    have hfloor : floorTo (coarsest types) (n + 1) = n := floorTo_eq hdvd (by omega) (by omega)
    have hts : InInt64 (n + 1) := ⟨hn.1.trans (by omega), hnext.le⟩
    have hw := castValue_temporal_some hc .timestampNs types (n + 1)
      (by rwa [show TemporalType.timestampNs.unitNs = 1 from rfl, mul_one])
      (by rwa [show TemporalType.timestampNs.unitNs = 1 from rfl, mul_one, hfloor])
    have := (h (n + 1) hts hw hfloor (by omega)).2 hnext.ne
    omega

/-- A comparison is safe when its window holds every instant it is true for. -/
theorem timeSafe_iff (op : CompareOp) {n : ℤ} (hn : InInt64 n) : TimeSafe db types op n ↔
    ∀ ts, InInt64 ts →
      (∃ w, castValue db (types.map .temporal) (.temporal .timestampNs ts) = some w) →
      op.Rel (floorTo (coarsest types) ts) n → WindowHolds op n ts := by
  have hu := coarsest_pos types
  unfold TimeSafe
  rw [forall_prop_of_true hn]
  cases op with
  | ne | distinct | notDistinct => exact iff_of_true trivial (fun _ _ _ _ ↦ trivial)
  | gt =>
    apply iff_of_true trivial
    intro ts _ _ h
    exact le_of_lt (lt_of_lt_of_le (show n < _ from h) (floorTo_le hu ts))
  | ge =>
    apply iff_of_true trivial
    intro ts _ _ h
    exact le_trans (show n ≤ _ from h) (floorTo_le hu ts)
  | lt => exact endsWhole_iff
  | le =>
    dsimp only
    rw [endsWhole_iff]
    refine forall₂_congr (fun ts hts ↦ forall_congr' (fun _ ↦ ?_))
    constructor
    · exact fun h hle _ hne ↦ h (Int.lt_add_one_iff.mpr hle) hne
    · intro h hlt hne
      by_cases hmax : n = int64Max
      · have := hts.2
        omega
      · exact h (Int.lt_add_one_iff.mp hlt) hmax hne
  | eq => exact eqSafe_iff hc hn

variable {labels : List Str} (hp : Planned get labels) {i : ℕ}
  (hcol : resolveColumnName get (.columnRef i) = some "timestamp".toList)

include hp hcol

theorem timestamp_holds (types : List TemporalType) (flipped : Bool) (op : CompareOp)
    {constant : Expression} {c : ℤ}
    (hconst : evalConstant db constant = some (.temporal (finalType .timestampNs types) c))
    (r : LokiRow) :
    (columnComparison flipped op (castThrough (types.map .temporal) (.columnRef i))
        constant).Holds db (get.row labels r) ↔
      (∃ w, castValue db (types.map .temporal) (.temporal .timestampNs r.tsNs) = some w) ∧
        op.Rel (floorTo (coarsest types) r.tsNs) (c * (finalType .timestampNs types).unitNs) := by
  rw [columnComparison_holds flipped op hconst, eval_castThrough, Expression.eval,
    hp.row_timestamp hcol, Option.bind_some]
  have hfloor : ∀ w, castValue db (types.map .temporal) (.temporal .timestampNs r.tsNs) = some w →
      (compareValues db op w (.temporal (finalType .timestampNs types) c) = .boolean true ↔
        op.Rel (floorTo (coarsest types) r.tsNs) (c * (finalType .timestampNs types).unitNs)) := by
    intro w hw
    obtain ⟨k, rfl, hk⟩ := castValue_temporal hc hw
    rw [show TemporalType.timestampNs.unitNs = 1 from rfl, mul_one] at hk
    rw [compareValues_temporal hc, ← hk, CompareOp.rel_mul (TemporalType.unitNs_pos _)]
  constructor
  · rintro ⟨w, hw, h⟩
    exact ⟨⟨w, hw⟩, (hfloor w hw).mp h⟩
  · rintro ⟨⟨w, hw⟩, h⟩
    exact ⟨w, hw, (hfloor w hw).mpr h⟩

/-- The comparisons of a cast timestamp that keep every wanted entry. -/
theorem timestamp_keepsWanted_iff (hlabels : bind.labelColumns = labels) (hfresh : bind.Unpushed)
    (flipped : Bool) (op : CompareOp) {constant : Expression} {c : ℤ}
    (hconst : evalConstant db constant = some (.temporal (finalType .timestampNs types) c)) :
    KeepsWanted db get bind
        (columnComparison flipped op (castThrough (types.map .temporal) (.columnRef i)) constant) ↔
      TimeSafe db types op (c * (finalType .timestampNs types).unitNs) := by
  subst hlabels
  generalize hn : c * (finalType .timestampNs types).unitNs = n
  have hpush : (tryFilter db get bind (columnComparison flipped op
      (castThrough (types.map .temporal) (.columnRef i)) constant)).1 =
        if InInt64 n then pushTimeBound bind op n else bind := by
    rw [tryFilter_columnComparison flipped op bind ((resolve_castThrough ..).trans hcol) hconst,
      if_pos rfl, tryValueToEpochNsExact_temporal hc, hn, checked]
    split_ifs <;> rfl
  unfold KeepsWanted
  simp only [timestamp_holds hc hp hcol types flipped op hconst, hpush, hn]
  by_cases hrange : InInt64 n
  · rw [if_pos hrange, timeSafe_iff hc op hrange]
    constructor
    · intro h ts hts hw hrel
      let r : LokiRow := ⟨ts, [], .empty, .empty⟩
      exact (covers_pushTimeBound hfresh db.regex op hrange (r := r) hts).mp
        (h r hts (fun p hp ↦ absurd hp List.not_mem_nil) ⟨hw, hrel⟩)
    · intro h r hts _ hholds
      exact (covers_pushTimeBound hfresh db.regex op hrange hts).mpr
        (h r.tsNs hts hholds.1 hholds.2)
  · rw [if_neg hrange]
    exact ⟨fun _ h ↦ absurd h hrange, fun _ r hts _ _ ↦ hfresh.covers db.regex hts⟩

end Timestamps

section Labels

variable {db : Database} {get : LogicalGet} {bind : ScanBindData}

def LabelSafe (db : Database) (types : List SqlType) (op : CompareOp) (v : Value) : Prop :=
  match op with
  | .eq => AllVarchar types ∨ ∀ s, s ≠ [] → castValue db types (.varchar s) ≠ some v
  | .ne => db.toText v = [] ∨
      ∀ w, castValue db types (.varchar (db.toText v)) = some w → w = .null ∨ w = v
  | _ => True

def labelled (name s : Str) : LokiRow := ⟨0, [], ⟨[(name, s)], List.pairwise_singleton _ _⟩, .empty⟩

theorem labelled_find (name s : Str) : (labelled name s).labels.find name = some s :=
  List.lookup_cons_self

theorem labelled_nonempty {name s : Str} (hs : s ≠ []) : (labelled name s).labels.Nonempty :=
  fun p hp ↦ by
    rw [List.mem_singleton.mp hp]
    exact hs

theorem covers_pushMatcher (h : bind.Unpushed) (engine : Regex.Engine) {m : LabelMatcher}
    {r : LokiRow} (hts : InInt64 r.tsNs) :
    (pushMatcher bind m).Covers engine r ↔ m.accepts engine r.labels = true := by
  obtain ⟨hacc, hwindow⟩ := h.covers engine hts
  rw [ScanBindData.Covers, accepts_pushMatcher, and_iff_right hacc]
  exact and_iff_left hwindow

variable (hdb : db.Lawful) (hc : db.LawfulCasts) (hp : Planned get bind.labelColumns)
  (hfresh : bind.Unpushed) {i : ℕ} {name : Str}
  (hcol : resolveColumnName get (.columnRef i) = some name) (hl : name ∈ bind.labelColumns)
  {types : List SqlType} (hnum : ∀ t ∈ types, t = .varchar ∨ ∃ n, t = .number n)

include hp hcol hl

theorem eval_castLabel (r : LokiRow) :
    (castThrough types (.columnRef i)).eval db (get.row bind.labelColumns r) =
      castValue db types (labelValue r.labels name) := by
  rw [eval_castThrough, eval_label hp hcol hl, Option.bind_some]

omit hp hcol hl in
theorem castLabel_present {labels : StringMap} (hlabels : labels.Nonempty) {a : Value}
    (ha : castValue db types (labelValue labels name) = some a) (hne : a ≠ .null) :
    ∃ u, labels.find name = some u ∧ u ≠ [] ∧ castValue db types (.varchar u) = some a := by
  unfold labelValue at ha
  split at ha
  · rename_i u hu
    exact ⟨u, hu, hlabels.find hu, ha⟩
  · rw [castValue_null] at ha
    exact absurd (Option.some.inj ha).symm hne

omit hp hcol hl in
include hfresh in
theorem accepts_labelled {m : LabelMatcher} {wanted : Value → Prop}
    (h : ∀ r : LokiRow, InInt64 r.tsNs → r.labels.Nonempty →
      (∃ a, castValue db types (labelValue r.labels name) = some a ∧ wanted a) →
        (pushMatcher bind m).Covers db.regex r)
    {s : Str} (hs : s ≠ []) {a : Value} (hcast : castValue db types (.varchar s) = some a)
    (hwanted : wanted a) : m.accepts db.regex (labelled name s).labels = true := by
  have hts : InInt64 0 := by decide
  have hvalue := labelValue_eq_varchar.mpr (labelled_find name s)
  apply (covers_pushMatcher hfresh db.regex hts).mp
  exact h (labelled name s) hts (labelled_nonempty hs) ⟨a, by rw [hvalue, hcast], hwanted⟩

include hfresh hdb hc hnum

theorem label_keepsWanted_iff (flipped : Bool) (op : CompareOp) {constant : Expression} {v : Value}
    (hconst : evalConstant db constant = some v) :
    KeepsWanted db get bind
        (columnComparison flipped op (castThrough types (.columnRef i)) constant) ↔
      LabelSafe db types op v := by
  have hpush := tryFilter_columnComparison flipped op bind
    ((resolve_castThrough get types _).trans hcol) hconst
  rw [if_neg (hp.label_ne hl).1,
    if_pos (show isLabelColumn bind name = true from decide_eq_true hl)] at hpush
  have hv : v ≠ .null := (evalConstant_eq_some hconst (fun _ ↦ .null)).2
  unfold KeepsWanted LabelSafe
  simp only [columnComparison_holds flipped op hconst, eval_castLabel hp hcol hl, hpush]
  cases op with
  | lt | gt | le | ge | distinct | notDistinct =>
    exact ⟨fun _ ↦ trivial, fun _ r hts _ _ ↦ hfresh.covers db.regex hts⟩
  | eq =>
    simp only [compareValues_eq]
    constructor
    · intro h
      by_contra hsafe
      simp only [not_or, not_forall, not_not] at hsafe
      obtain ⟨hchain, s, hs, hcast⟩ := hsafe
      obtain ⟨s', hs', hcast'⟩ := castValue_numerals hc hnum hchain hcast [[], db.toText v]
      simp only [List.mem_cons, List.not_mem_nil, or_false, not_or] at hs'
      have haccepts := accepts_labelled hfresh h hs'.1 hcast' ⟨hv, hv, rfl⟩
      rw [LabelMatcher.accepts, labelled_find, decide_eq_true_iff] at haccepts
      exact hs'.2 haccepts
    · rintro h r hts hr ⟨a, ha, hne, _, rfl⟩
      obtain ⟨u, hu, hne, hcast⟩ := castLabel_present hr ha hne
      rcases h with hchain | h
      · rw [castValue_allVarchar hc hchain] at hcast
        rw [covers_pushMatcher hfresh db.regex hts, LabelMatcher.accepts, decide_eq_true_iff, hu,
          ← Option.some.inj hcast, hdb.toText_varchar]
        rfl
      · exact absurd hcast (h u hne)
  | ne =>
    simp only [compareValues_ne]
    constructor
    · intro h
      by_contra hsafe
      simp only [not_or, not_forall] at hsafe
      obtain ⟨htext, w, hw, hnull, hne⟩ := hsafe
      have haccepts := accepts_labelled hfresh h htext hw ⟨hnull, hv, hne⟩
      rw [LabelMatcher.accepts, labelled_find, decide_eq_true_iff] at haccepts
      exact haccepts rfl
    · rintro h r hts hr ⟨a, ha, hnull, _, hne⟩
      obtain ⟨u, hu, hnil, hcast⟩ := castLabel_present hr ha hnull
      rw [covers_pushMatcher hfresh db.regex hts, LabelMatcher.accepts, decide_eq_true_iff, hu]
      rintro rfl
      rcases h with h | h
      · exact hnil h
      · exact (h a hcast).elim hnull hne

theorem labelIn_keepsWanted_iff {members : List Expression} {values : List Value}
    (hne : members ≠ []) (hvalues : constantMembers db members = some values) :
    KeepsWanted db get bind (.operator .isIn (castThrough types (.columnRef i) :: members)) ↔
      ∀ v ∈ values, LabelSafe db types .eq v := by
  have hpush := tryFilter_isIn bind ((resolve_castThrough get types _).trans hcol) hl hne
    hvalues
  have haccepts : ∀ {labels : StringMap} {u : Str}, labels.find name = some u → u ≠ [] →
      (LabelMatcher.accepts db.regex ⟨name, .re, inListRegex (values.map db.toText)⟩ labels =
        true ↔ u ∈ values.map db.toText) := by
    intro labels u hu hnil
    rw [in_accepts hdb, hu, Option.getD_some, mem_dropWhile_empty hnil]
    exact or_iff_left (fun h ↦ hnil h.2)
  unfold KeepsWanted LabelSafe
  simp only [isIn_holds (evalAll_constantMembers hvalues _), eval_castLabel hp hcol hl, hpush]
  constructor
  · intro h v hv
    by_contra hsafe
    simp only [not_or, not_forall, not_not] at hsafe
    obtain ⟨hchain, s, hs, hcast⟩ := hsafe
    obtain ⟨s', hs', hcast'⟩ := castValue_numerals hc hnum hchain hcast
      ([] :: values.map db.toText)
    obtain ⟨hnil, hs'⟩ := not_or.mp (List.mem_cons.not.mp hs')
    have hpushed := accepts_labelled hfresh h hnil hcast'
      ⟨constantMembers_ne_null hvalues v hv, hv⟩
    exact hs' ((haccepts (labelled_find name s') hnil).mp hpushed)
  · rintro h r hts hr ⟨a, ha, hnull, hmem⟩
    obtain ⟨u, hu, hnil, hcast⟩ := castLabel_present hr ha hnull
    rcases h a hmem with hchain | h
    · rw [castValue_allVarchar hc hchain] at hcast
      rw [covers_pushMatcher hfresh db.regex hts, haccepts hu hnil, ← hdb.toText_varchar u,
        Option.some.inj hcast]
      exact List.mem_map_of_mem hmem
    · exact absurd hcast (h u hnil)

end Labels

section Casts

variable {db : Database} {get : LogicalGet} {bind : ScanBindData}

/-- What the translation does with casts loses wanted entries in these cases
alone: a window that ends inside a unit of the cast, an instant compared with
a coarser one, a text compared as a number. -/
theorem casts_keepWanted_iff (hdb : db.Lawful) (hc : db.LawfulCasts)
    (hp : Planned get bind.labelColumns) (hfresh : bind.Unpushed) {i : ℕ} {name : Str}
    (hcol : resolveColumnName get (.columnRef i) = some name) :
    (name = "timestamp".toList → ∀ types : List TemporalType,
      (∀ flipped op constant c,
        evalConstant db constant = some (.temporal (finalType .timestampNs types) c) →
        (KeepsWanted db get bind
            (columnComparison flipped op (castThrough (types.map .temporal) (.columnRef i))
              constant) ↔
          TimeSafe db types op (c * (finalType .timestampNs types).unitNs))) ∧
      ∀ members, KeepsWanted db get bind
        (.operator .isIn (castThrough (types.map .temporal) (.columnRef i) :: members))) ∧
    (name ∈ bind.labelColumns → ∀ types : List SqlType,
      (∀ t ∈ types, t = .varchar ∨ ∃ n, t = .number n) →
      (∀ flipped op constant v, evalConstant db constant = some v →
        (KeepsWanted db get bind
            (columnComparison flipped op (castThrough types (.columnRef i)) constant) ↔
          LabelSafe db types op v)) ∧
      ∀ members values, members ≠ [] → constantMembers db members = some values →
        (KeepsWanted db get bind (.operator .isIn (castThrough types (.columnRef i) :: members)) ↔
          ∀ v ∈ values, LabelSafe db types .eq v)) := by
  refine ⟨?_, fun hl types hnum ↦ ⟨fun flipped op constant v hconst ↦ ?_,
    fun members values hne hvalues ↦ ?_⟩⟩
  · rintro rfl types
    refine ⟨fun flipped op constant c hconst ↦
      timestamp_keepsWanted_iff hc hp hcol rfl hfresh flipped op hconst, fun members ↦ ?_⟩
    rintro r hts hr _
    rcases tryInList_cases db get bind .isIn
      (castThrough (types.map .temporal) (.columnRef i) :: members) with
      h | ⟨column, ks, label, values, _, heq, _, hlabel, hl, _⟩
    · rw [tryFilter, h]
      · exact hfresh.covers db.regex hts
      · simp
    · obtain ⟨rfl, rfl⟩ := List.cons.inj heq
      rw [resolve_castThrough, hcol] at hlabel
      exact absurd (Option.some.inj hlabel).symm (hp.label_ne hl).1
  · exact label_keepsWanted_iff hdb hc hp hfresh hcol hl hnum flipped op hconst
  · exact labelIn_keepsWanted_iff hdb hc hp hfresh hcol hl hnum hne hvalues

theorem casts_keepWanted_date : KeepsWanted .reference jobGet jobBind
    (.comparison .lt (castThrough [.temporal .date] (.columnRef 0))
      (.constant (.temporal .date 1))) := by
  have htimestamp : resolveColumnName jobGet (.columnRef 0) = some "timestamp".toList := rfl
  have h := casts_keepWanted_iff Database.reference_lawful Database.reference_lawfulCasts
    jobGet_planned ⟨rfl, rfl, rfl, rfl⟩ htimestamp
  exact (((h.1 rfl [.date]).1 false .lt (.constant (.temporal .date 1)) 1 rfl).mpr
    (fun _ ↦ Or.inr (Or.inl (by decide))))

/-- `CAST(timestamp AS DATE) = DATE '1970-01-01'` and `CAST(job AS INTEGER) = 5`. -/
theorem casts_lose_wanted :
    ¬ KeepsWanted .reference jobGet jobBind
      (.comparison .eq (castThrough [.temporal .date] (.columnRef 0))
        (.constant (.temporal .date 0))) ∧
    ¬ KeepsWanted .reference jobGet jobBind
      (.comparison .eq (castThrough [.number 0] (.columnRef 2)) (.constant (.number 0 5))) := by
  constructor
  · intro h
    exact absurd (h ⟨1, [], .empty, .empty⟩ (by decide) (fun p hp ↦ absurd hp List.not_mem_nil)
      (by decide)) (by decide)
  · intro h
    exact absurd (h (labelled "job".toList "05".toList) (by decide)
      (labelled_nonempty (by decide)) (by decide)) (by decide)

end Casts

end DuckdbLoki
