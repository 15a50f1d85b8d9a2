import DuckdbLoki.Casts
import DuckdbLoki.Scan

namespace DuckdbLoki

/-- An expression under a chain of casts, the innermost one first. -/
def castThrough (types : List SqlType) (e : Expression) : Expression :=
  types.foldl (fun e t ↦ .cast t e) e

def castValue (db : Database) : List SqlType → Value → Option Value
  | [], v => some v
  | t :: types, v => (if v = .null then some .null else db.cast t v).bind (castValue db types)

section Chains

variable {db : Database}

theorem eval_castThrough (row : ℕ → Value) (types : List SqlType) (e : Expression) :
    (castThrough types e).eval db row = (e.eval db row).bind (castValue db types) := by
  induction types generalizing e with
  | nil => exact (Option.bind_fun_some _).symm
  | cons t types ih =>
    change (castThrough types (.cast t e)).eval db row = _
    rw [ih, Expression.eval, Option.bind_assoc]
    rfl

theorem resolve_castThrough (get : LogicalGet) (types : List SqlType) (e : Expression) :
    resolveColumnName get (castThrough types e) = resolveColumnName get e := by
  induction types generalizing e with
  | nil => rfl
  | cons t types ih => exact (ih (.cast t e)).trans rfl

theorem castValue_null (types : List SqlType) : castValue db types .null = some .null := by
  induction types with
  | nil => rfl
  | cons t types ih => exact ih

end Chains

section Temporal

def finalType : TemporalType → List TemporalType → TemporalType
  | t, [] => t
  | _, t :: types => finalType t types

def coarsest (types : List TemporalType) : ℤ :=
  (types.map TemporalType.unitNs).foldr max 1

theorem exists_coarsest (types : List TemporalType) : ∃ t : TemporalType, coarsest types = t.unitNs := by
  induction types with
  | nil => exact ⟨.timestampNs, rfl⟩
  | cons t types ih =>
    obtain ⟨t', ht'⟩ := ih
    change ∃ t'' : TemporalType, max t.unitNs (coarsest types) = t''.unitNs
    rw [ht']
    rcases max_choice t.unitNs t'.unitNs with h | h
    · exact ⟨t, h⟩
    · exact ⟨t', h⟩

theorem coarsest_pos (types : List TemporalType) : 0 < coarsest types := by
  obtain ⟨t, ht⟩ := exists_coarsest types
  rw [ht]
  exact t.unitNs_pos

theorem floorTo_coarsest (t : TemporalType) (types : List TemporalType) (n : ℤ) :
    floorTo (coarsest types) (floorTo t.unitNs n) = floorTo (coarsest (t :: types)) n := by
  obtain ⟨t', ht'⟩ := exists_coarsest types
  have hdvd : t.unitNs ∣ coarsest types ∨ coarsest types ∣ t.unitNs := ht' ▸ t.unitNs_dvd t'
  exact floorTo_floorTo t.unitNs_pos (coarsest_pos types) hdvd n

variable {db : Database} (hc : db.LawfulCasts)

include hc

theorem castValue_temporal_cons (t' t : TemporalType) (types : List TemporalType) (count : ℤ) :
    castValue db ((t' :: types).map .temporal) (.temporal t count) =
      if t'.InRange (count * t.unitNs / t'.unitNs) then
        castValue db (types.map .temporal) (.temporal t' (count * t.unitNs / t'.unitNs))
      else none := by
  rw [List.map_cons, castValue, if_neg (by simp), hc.temporal, castTemporal]
  split_ifs <;> rfl

/-- A chain of casts rounds a timestamp down to its coarsest unit. -/
theorem castValue_temporal {types : List TemporalType} {t : TemporalType} {count : ℤ} {w : Value}
    (h : castValue db (types.map .temporal) (.temporal t count) = some w) :
    ∃ k, w = .temporal (finalType t types) k ∧
      k * (finalType t types).unitNs = floorTo (coarsest types) (count * t.unitNs) := by
  induction types generalizing t count with
  | nil => exact ⟨count, (Option.some.inj h).symm, (floorTo_one _).symm⟩
  | cons t' types ih =>
    rw [castValue_temporal_cons hc] at h
    split_ifs at h
    obtain ⟨k, hw, hk⟩ := ih h
    refine ⟨k, hw, hk.trans ?_⟩
    rw [ediv_mul_eq_floorTo, floorTo_coarsest]

theorem castValue_temporal_some (t : TemporalType) (types : List TemporalType) (count : ℤ)
    (hn : InInt64 (count * t.unitNs))
    (hfloor : InInt64 (floorTo (coarsest types) (count * t.unitNs))) :
    ∃ w, castValue db (types.map .temporal) (.temporal t count) = some w := by
  induction types generalizing t count with
  | nil => exact ⟨_, rfl⟩
  | cons t' types ih =>
    rw [← floorTo_coarsest] at hfloor
    have hle := floorTo_le t'.unitNs_pos (count * t.unitNs)
    have hge := floorTo_le (coarsest_pos types) (floorTo t'.unitNs (count * t.unitNs))
    have hmid : InInt64 (floorTo t'.unitNs (count * t.unitNs)) :=
      ⟨hfloor.1.trans hge, hle.trans hn.2⟩
    rw [castValue_temporal_cons hc, if_pos (t'.inRange_div hmid hn)]
    refine ih _ _ ?_ ?_
    · rwa [ediv_mul_eq_floorTo]
    · rwa [ediv_mul_eq_floorTo]

end Temporal

section Texts

def AllVarchar (types : List SqlType) : Prop := ∀ t ∈ types, t = .varchar

variable {db : Database} (hc : db.LawfulCasts)

include hc

theorem castValue_allVarchar {types : List SqlType} (h : AllVarchar types) (s : Str) :
    castValue db types (.varchar s) = some (.varchar s) := by
  induction types with
  | nil => rfl
  | cons t types ih =>
    obtain rfl := h t List.mem_cons_self
    rw [castValue, if_neg (by simp), hc.varchar, Option.bind_some]
    exact ih (fun t ht ↦ h t (List.mem_cons_of_mem _ ht))

/-- A chain that passes through numbers takes any of its values at texts
outside every finite list. -/
theorem castValue_numerals {types : List SqlType}
    (hnum : ∀ t ∈ types, t = .varchar ∨ ∃ n, t = .number n) (h : ¬ AllVarchar types) {s : Str}
    {v : Value} (hv : castValue db types (.varchar s) = some v) (l : List Str) :
    ∃ s', s' ∉ l ∧ castValue db types (.varchar s') = some v := by
  induction types with
  | nil => exact absurd (fun t ht ↦ absurd ht List.not_mem_nil) h
  | cons t types ih =>
    rw [castValue, if_neg (by simp)] at hv
    simp only [castValue, if_neg (show Value.varchar _ ≠ .null by simp)]
    rcases hnum t List.mem_cons_self with rfl | ⟨n, rfl⟩
    · simp only [hc.varchar, Option.bind_some] at hv ⊢
      refine ih (fun t ht ↦ hnum t (List.mem_cons_of_mem _ ht)) (fun hall ↦ h ?_) hv
      exact List.forall_mem_cons.mpr ⟨rfl, hall⟩
    · obtain ⟨w, hw, hv⟩ := Option.bind_eq_some_iff.mp hv
      obtain ⟨s', hs', hw'⟩ := hc.numerals n s w hw l
      exact ⟨s', hs', by rw [hw']; exact hv⟩

end Texts

end DuckdbLoki
