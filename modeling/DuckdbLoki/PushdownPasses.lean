import DuckdbLoki.Passes.Settle
import DuckdbLoki.ScanWindow

namespace DuckdbLoki

section Contributions

structure Contribution where
  matchers : List LabelMatcher
  lineFilters : List LineFilter
  lowers : List ℤ
  uppers : List ℤ

def Contribution.empty : Contribution := ⟨[], [], [], []⟩

def ScanBindData.add (bind : ScanBindData) (k : Contribution) : ScanBindData :=
  { bind with
    pushedMatchers := bind.pushedMatchers ++ k.matchers
    pushedLineFilters := bind.pushedLineFilters ++ k.lineFilters
    pushedStartNs := k.lowers.foldl max bind.pushedStartNs
    pushedEndNs := k.uppers.foldl min bind.pushedEndNs }

theorem ScanBindData.add_empty (bind : ScanBindData) : bind.add .empty = bind := by
  simp [ScanBindData.add, Contribution.empty]

def AddsAlways (labels : List Str) (attempt : ScanBindData → ScanBindData × Bool) : Prop :=
  ∃ k consumed, ∀ bind, bind.labelColumns = labels → attempt bind = (bind.add k, consumed)

variable (db : Database) (get : LogicalGet) (labels : List Str)

theorem addsAlways_nothing (consumed : Bool) :
    AddsAlways labels (fun bind ↦ (bind, consumed)) := by
  refine ⟨.empty, consumed, fun bind _ ↦ ?_⟩
  rw [ScanBindData.add_empty]

theorem addsAlways_matcher (m : LabelMatcher) (consumed : Bool) :
    AddsAlways labels (fun bind ↦ (pushMatcher bind m, consumed)) := by
  refine ⟨⟨[m], [], [], []⟩, consumed, fun bind _ ↦ ?_⟩
  simp [ScanBindData.add, pushMatcher]

theorem addsAlways_lineFilter (f : LineFilter) (consumed : Bool) :
    AddsAlways labels (fun bind ↦ (pushLineFilter bind f, consumed)) := by
  refine ⟨⟨[], [f], [], []⟩, consumed, fun bind _ ↦ ?_⟩
  simp [ScanBindData.add, pushLineFilter]

theorem addsAlways_timeBound (op : CompareOp) (ns : ℤ) (consumed : Bool) :
    AddsAlways labels (fun bind ↦ (pushTimeBound bind op ns, consumed)) := by
  cases op with
  | gt | ge =>
    refine ⟨⟨[], [], [ns], []⟩, consumed, fun bind _ ↦ ?_⟩
    simp [ScanBindData.add, pushTimeBound, addStartBound]
  | lt =>
    refine ⟨⟨[], [], [], [ns]⟩, consumed, fun bind _ ↦ ?_⟩
    simp [ScanBindData.add, pushTimeBound, addEndBound]
  | le =>
    by_cases hmax : ns = int64Max
    · refine ⟨.empty, consumed, fun bind _ ↦ ?_⟩
      simp [ScanBindData.add_empty, pushTimeBound, hmax]
    · refine ⟨⟨[], [], [], [ns + 1]⟩, consumed, fun bind _ ↦ ?_⟩
      simp [ScanBindData.add, pushTimeBound, addEndBound, hmax]
  | eq =>
    by_cases hmax : ns = int64Max
    · refine ⟨.empty, consumed, fun bind _ ↦ ?_⟩
      simp [ScanBindData.add_empty, pushTimeBound, hmax]
    · refine ⟨⟨[], [], [ns], [ns + 1]⟩, consumed, fun bind _ ↦ ?_⟩
      simp [ScanBindData.add, pushTimeBound, addStartBound, addEndBound, hmax]
  | ne | distinct | notDistinct => exact addsAlways_nothing labels consumed

variable {labels}

theorem AddsAlways.label {name : Str} {yes no : ScanBindData → ScanBindData × Bool}
    (hyes : AddsAlways labels yes) (hno : AddsAlways labels no) :
    AddsAlways labels (fun bind ↦ if isLabelColumn bind name then yes bind else no bind) := by
  by_cases hl : name ∈ labels
  · obtain ⟨k, consumed, h⟩ := hyes
    refine ⟨k, consumed, fun bind hbind ↦ ?_⟩
    have hlabel : isLabelColumn bind name = true := decide_eq_true (hbind ▸ hl)
    exact (if_pos hlabel).trans (h bind hbind)
  · obtain ⟨k, consumed, h⟩ := hno
    refine ⟨k, consumed, fun bind hbind ↦ ?_⟩
    have hlabel : ¬ isLabelColumn bind name = true :=
      fun h ↦ hl (hbind ▸ of_decide_eq_true h)
    exact (if_neg hlabel).trans (h bind hbind)

variable (labels)

theorem addsAlways_comparison (op : CompareOp) (left right : Expression) :
    AddsAlways labels (fun bind ↦ tryComparison db get bind op left right) := by
  unfold tryComparison
  cases comparisonSides db get op left right with
  | none => exact addsAlways_nothing labels false
  | some sides =>
    obtain ⟨op', name, v⟩ := sides
    dsimp only
    by_cases htime : name = "timestamp".toList
    · simp only [if_pos htime]
      cases tryValueToEpochNsExact db v with
      | none => exact addsAlways_nothing labels false
      | some ns => exact addsAlways_timeBound labels op' ns false
    · simp only [if_neg htime]
      refine AddsAlways.label ?_ (addsAlways_nothing labels false)
      cases op' with
      | eq => exact addsAlways_matcher labels _ true
      | ne => exact addsAlways_matcher labels _ false
      | _ => exact addsAlways_nothing labels false

theorem addsAlways_inList (type : OperatorType) (children : List Expression) :
    AddsAlways labels (fun bind ↦ tryInList db get bind type children) := by
  unfold tryInList
  split
  · rename_i column member members
    cases resolveColumnName get column with
    | none => exact addsAlways_nothing labels false
    | some name =>
      simp only [ite_not]
      refine AddsAlways.label ?_ (addsAlways_nothing labels false)
      cases constantMembers db (member :: members) with
      | none => exact addsAlways_nothing labels false
      | some values => exact addsAlways_matcher labels _ true
  · exact addsAlways_nothing labels false

theorem addsAlways_function (fname : Str) (children : List Expression) (negated : Bool) :
    AddsAlways labels (fun bind ↦ tryFunction db get bind fname children negated) := by
  rcases children with _ | ⟨column, _ | ⟨constant, _ | _⟩⟩
  · exact addsAlways_nothing labels false
  · exact addsAlways_nothing labels false
  · unfold tryFunction
    dsimp only
    by_cases hfname : fname ∈ lineFunctions
    · simp only [if_neg (not_not.mpr hfname)]
      cases resolveColumnName get column with
      | none => exact addsAlways_nothing labels false
      | some name =>
        cases evalConstant db constant with
        | none => exact addsAlways_nothing labels false
        | some pattern =>
          by_cases hline : name = "line".toList
          · simp only [if_neg (not_not.mpr hline)]
            cases lineFilterOf fname (db.toText pattern) with
            | none => exact addsAlways_nothing labels false
            | some f => exact addsAlways_lineFilter labels _ true
          · simp only [if_pos hline]
            exact addsAlways_nothing labels false
    · simp only [if_pos hfname]
      exact addsAlways_nothing labels false
  · exact addsAlways_nothing labels false

/-- What a filter adds and whether it is erased depends on the labels alone. -/
theorem exists_tryFilter_eq (e : Expression) : ∃ k consumed, ∀ bind,
    bind.labelColumns = labels → tryFilter db get bind e = (bind.add k, consumed) := by
  change AddsAlways labels (fun bind ↦ tryFilter db get bind e)
  unfold tryFilter
  split
  · exact addsAlways_function db get labels _ _ true
  · exact addsAlways_inList db get labels _ _
  · exact addsAlways_comparison db get labels _ _ _
  · exact addsAlways_function db get labels _ _ false
  · exact addsAlways_nothing labels false

end Contributions

section Alike

theorem foldl_max_congr {l l' : List ℤ} {a b : ℤ} (h : ∀ x, x ∈ a :: l ↔ x ∈ b :: l') :
    l.foldl max a = l'.foldl max b := by
  refine eq_of_forall_gt_iff (fun x ↦ ?_)
  have hlist : ∀ a l, (l : List ℤ).foldl max a < x ↔ ∀ y ∈ a :: l, y < x :=
    fun a l ↦ foldl_max_lt.trans (List.forall_mem_cons (p := fun y ↦ y < x)).symm
  rw [hlist, hlist]
  simp only [h]

theorem foldl_min_congr {l l' : List ℤ} {a b : ℤ} (h : ∀ x, x ∈ a :: l ↔ x ∈ b :: l') :
    l.foldl min a = l'.foldl min b := by
  refine eq_of_forall_lt_iff (fun x ↦ ?_)
  have hlist : ∀ a l, x < (l : List ℤ).foldl min a ↔ ∀ y ∈ a :: l, x < y :=
    fun a l ↦ lt_foldl_min.trans (List.forall_mem_cons (p := fun y ↦ x < y)).symm
  rw [hlist, hlist]
  simp only [h]

/-- Two scans that differ only in the order of what is pushed to them and in how
often it is. -/
structure SameScan (a b : ScanBindData) : Prop where
  frame : b = { a with
    pushedMatchers := b.pushedMatchers
    pushedLineFilters := b.pushedLineFilters }
  matchers : ∀ m, m ∈ a.pushedMatchers ↔ m ∈ b.pushedMatchers
  lineFilters : ∀ f, f ∈ a.pushedLineFilters ↔ f ∈ b.pushedLineFilters

theorem SameScan.equivalence : Equivalence SameScan where
  refl a := ⟨rfl, fun _ ↦ Iff.rfl, fun _ ↦ Iff.rfl⟩
  symm h := ⟨by rw [h.frame], fun m ↦ (h.matchers m).symm, fun f ↦ (h.lineFilters f).symm⟩
  trans h h' := by
    refine ⟨?_, fun m ↦ (h.matchers m).trans (h'.matchers m),
      fun f ↦ (h.lineFilters f).trans (h'.lineFilters f)⟩
    rw [h'.frame, h.frame]

variable {a b : ScanBindData}

theorem SameScan.labelColumns (h : SameScan a b) : b.labelColumns = a.labelColumns := by
  rw [h.frame]

theorem SameScan.window (h : SameScan a b) :
    effectiveStart b = effectiveStart a ∧ effectiveEnd b = effectiveEnd a := by
  rw [h.frame]
  exact ⟨rfl, rfl⟩

theorem SameScan.accepts (h : SameScan a b) (engine : Regex.Engine) (r : LokiRow) :
    b.Accepts engine r ↔ a.Accepts engine r := by
  simp only [ScanBindData.Accepts, h.matchers, h.lineFilters]

theorem SameScan.add (h : SameScan a b) (k : Contribution) : SameScan (a.add k) (b.add k) := by
  refine ⟨?_, fun m ↦ ?_, fun f ↦ ?_⟩
  · rw [h.frame]
    rfl
  · simp only [ScanBindData.add, List.mem_append, h.matchers]
  · simp only [ScanBindData.add, List.mem_append, h.lineFilters]

theorem sameScan_add_comm (a : ScanBindData) (k k' : Contribution) :
    SameScan ((a.add k).add k') ((a.add k').add k) := by
  refine ⟨?_, fun m ↦ ?_, fun f ↦ ?_⟩
  · have hlow : k'.lowers.foldl max (k.lowers.foldl max a.pushedStartNs) =
        k.lowers.foldl max (k'.lowers.foldl max a.pushedStartNs) := by
      rw [← List.foldl_append, ← List.foldl_append]
      refine foldl_max_congr (fun x ↦ ?_)
      simp only [List.mem_cons, List.mem_append, or_comm]
    have hup : k'.uppers.foldl min (k.uppers.foldl min a.pushedEndNs) =
        k.uppers.foldl min (k'.uppers.foldl min a.pushedEndNs) := by
      rw [← List.foldl_append, ← List.foldl_append]
      refine foldl_min_congr (fun x ↦ ?_)
      simp only [List.mem_cons, List.mem_append, or_comm]
    simp only [ScanBindData.add, hlow, hup]
  · simp only [ScanBindData.add, List.mem_append, or_comm, or_left_comm]
  · simp only [ScanBindData.add, List.mem_append, or_comm, or_left_comm]

theorem sameScan_add_add (a : ScanBindData) (k : Contribution) :
    SameScan ((a.add k).add k) (a.add k) := by
  refine ⟨?_, fun m ↦ ?_, fun f ↦ ?_⟩
  · have hlow : k.lowers.foldl max (k.lowers.foldl max a.pushedStartNs) =
        k.lowers.foldl max a.pushedStartNs := by
      rw [← List.foldl_append]
      refine foldl_max_congr (fun x ↦ ?_)
      simp only [List.mem_cons, List.mem_append, or_self]
    have hup : k.uppers.foldl min (k.uppers.foldl min a.pushedEndNs) =
        k.uppers.foldl min a.pushedEndNs := by
      rw [← List.foldl_append]
      refine foldl_min_congr (fun x ↦ ?_)
      simp only [List.mem_cons, List.mem_append, or_self]
    simp only [ScanBindData.add, hlow, hup]
  · simp only [ScanBindData.add, List.mem_append, or_assoc, or_self]
  · simp only [ScanBindData.add, List.mem_append, or_assoc, or_self]

end Alike

section Passes

variable (db : Database) (get : LogicalGet)

theorem pushdownComplexFilter_eq_run (bind : ScanBindData) (filters : List Expression) :
    pushdownComplexFilter db get bind filters = Passes.run (tryFilter db get) bind filters :=
  rfl

theorem settles_tryFilter : Passes.Settles (tryFilter db get) SameScan where
  equiv := SameScan.equivalence
  congr {s t} e hs := by
    obtain ⟨k, consumed, h⟩ := exists_tryFilter_eq db get s.labelColumns e
    rw [h s rfl, h t hs.labelColumns]
    exact hs.add k
  comm s e e' := by
    obtain ⟨k, consumed, h⟩ := exists_tryFilter_eq db get s.labelColumns e
    obtain ⟨k', consumed', h'⟩ := exists_tryFilter_eq db get s.labelColumns e'
    rw [h s rfl, h' s rfl, h' (s.add k) rfl, h (s.add k') rfl]
    exact sameScan_add_comm s k k'
  idem s e := by
    obtain ⟨k, consumed, h⟩ := exists_tryFilter_eq db get s.labelColumns e
    rw [h s rfl, h (s.add k) rfl]
    exact sameScan_add_add s k
  steady s e e' := by
    obtain ⟨k, consumed, h⟩ := exists_tryFilter_eq db get s.labelColumns e
    obtain ⟨k', consumed', h'⟩ := exists_tryFilter_eq db get s.labelColumns e'
    rw [h s rfl, h' s rfl, h' (s.add k) rfl]

def SelectsAlike (a b : ScanBindData) : Prop :=
  effectiveStart a = effectiveStart b ∧ effectiveEnd a = effectiveEnd b ∧
    ∀ engine r, a.Accepts engine r ↔ b.Accepts engine r

theorem SameScan.selectsAlike {a b : ScanBindData} (h : SameScan a b) : SelectsAlike a b :=
  ⟨h.window.1.symm, h.window.2.symm, fun engine r ↦ (h.accepts engine r).symm⟩

/-- The plan does not depend on how the filters reach the pushdown: at once or
in parts, in any order, and again after some were left. -/
theorem pushdown_passes (bind : ScanBindData) (filters : List Expression) :
    (∀ more, pushdownComplexFilter db get bind (filters ++ more) =
      ((pushdownComplexFilter db get (pushdownComplexFilter db get bind filters).1 more).1,
        (pushdownComplexFilter db get bind filters).2 ++
          (pushdownComplexFilter db get (pushdownComplexFilter db get bind filters).1 more).2)) ∧
    (∀ filters', filters.Perm filters' →
      SelectsAlike (pushdownComplexFilter db get bind filters).1
          (pushdownComplexFilter db get bind filters').1 ∧
        (pushdownComplexFilter db get bind filters).2.Perm
          (pushdownComplexFilter db get bind filters').2) ∧
    ∀ again, (∀ e ∈ again, e ∈ (pushdownComplexFilter db get bind filters).2) →
      (pushdownComplexFilter db get (pushdownComplexFilter db get bind filters).1 again).2 =
          again ∧
        SelectsAlike
          (pushdownComplexFilter db get (pushdownComplexFilter db get bind filters).1 again).1
          (pushdownComplexFilter db get bind filters).1 := by
  have hsettles := settles_tryFilter db get
  simp only [pushdownComplexFilter_eq_run]
  refine ⟨fun more ↦ hsettles.run_append, fun filters' hperm ↦ ?_, fun again hagain ↦ ?_⟩
  · obtain ⟨hscan, hleft⟩ := hsettles.run_perm hperm bind
    exact ⟨hscan.selectsAlike, hleft⟩
  · obtain ⟨hleft, hscan⟩ := hsettles.run_again hagain
    exact ⟨hleft, hscan.selectsAlike⟩

end Passes

end DuckdbLoki
