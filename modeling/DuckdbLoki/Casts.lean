import DuckdbLoki.Expression
import Mathlib.Algebra.Order.BigOperators.Group.List
import Mathlib.Algebra.Order.Ring.Int
import Mathlib.Tactic.Linarith

namespace DuckdbLoki

section Floor

def floorTo (u n : ℤ) : ℤ := n - n % u

variable {u v m n : ℤ}

theorem floorTo_one (n : ℤ) : floorTo 1 n = n := by
  rw [floorTo, Int.emod_one, sub_zero]

theorem ediv_mul_eq_floorTo (u n : ℤ) : n / u * u = floorTo u n := by
  have h := Int.emod_add_mul_ediv n u
  rw [floorTo, Int.mul_comm]
  omega

theorem dvd_floorTo (u n : ℤ) : u ∣ floorTo u n := by
  rw [← ediv_mul_eq_floorTo]
  exact Int.dvd_mul_left _ _

theorem floorTo_le (hu : 0 < u) (n : ℤ) : floorTo u n ≤ n := by
  have := Int.emod_nonneg n hu.ne'
  rw [floorTo]
  omega

theorem lt_floorTo_add (hu : 0 < u) (n : ℤ) : n < floorTo u n + u := by
  have := Int.emod_lt_of_pos n hu
  rw [floorTo]
  omega

theorem floorTo_of_dvd (h : u ∣ n) : floorTo u n = n := by
  rw [floorTo, Int.emod_eq_zero_of_dvd h, sub_zero]

theorem floorTo_eq (hm : u ∣ m) (hle : m ≤ n) (hlt : n < m + u) : floorTo u n = m := by
  obtain ⟨k, rfl⟩ := hm
  have hmod : n % u = n - u * k := by
    rw [← Int.emod_eq_of_lt (a := n - u * k) (b := u) (by omega) (by omega),
      Int.sub_mul_emod_self_left]
  rw [floorTo, hmod]
  omega

theorem le_floorTo (hu : 0 < u) (hm : u ∣ m) (hle : m ≤ n) : m ≤ floorTo u n := by
  by_contra hlt
  have hdvd : u ∣ m - floorTo u n := Int.dvd_sub hm (dvd_floorTo u n)
  have := Int.le_of_dvd (by omega) hdvd
  have := lt_floorTo_add hu n
  omega

theorem floorTo_floorTo (hu : 0 < u) (hv : 0 < v) (h : u ∣ v ∨ v ∣ u) (n : ℤ) :
    floorTo v (floorTo u n) = floorTo (max u v) n := by
  rcases h with h | h
  · rw [max_eq_right (Int.le_of_dvd hv h)]
    exact floorTo_eq (dvd_floorTo v n)
      (le_floorTo hu (h.trans (dvd_floorTo v n)) (floorTo_le hv n))
      ((floorTo_le hu n).trans_lt (lt_floorTo_add hv n))
  · rw [max_eq_left (Int.le_of_dvd hu h)]
    exact floorTo_of_dvd (h.trans (dvd_floorTo u n))

end Floor

section Types

def TemporalType.unitNs : TemporalType → ℤ
  | .timestampNs => 1
  | .timestamp => 1000
  | .timestampTz => 1000
  | .date => 86400 * 1000 * 1000 * 1000

def TemporalType.InRange : TemporalType → ℤ → Prop
  | .date, count => -2147483648 ≤ count ∧ count ≤ 2147483647
  | _, count => InInt64 count

instance (t : TemporalType) (count : ℤ) : Decidable (t.InRange count) := by
  cases t <;> exact inferInstanceAs (Decidable (_ ∧ _))

theorem TemporalType.unitNs_pos (t : TemporalType) : 0 < t.unitNs := by
  cases t <;> decide

theorem TemporalType.unitNs_dvd (t t' : TemporalType) :
    t.unitNs ∣ t'.unitNs ∨ t'.unitNs ∣ t.unitNs := by
  cases t <;> cases t' <;> decide

theorem TemporalType.inRange_div (t : TemporalType) {n : ℤ} (h : InInt64 (floorTo t.unitNs n))
    (hn : InInt64 n) : t.InRange (n / t.unitNs) := by
  rw [← ediv_mul_eq_floorTo] at h
  obtain ⟨h₁, h₂⟩ := h
  cases t
  all_goals
    simp only [InRange, InInt64, unitNs, int64Min, int64Max] at h₁ h₂ hn ⊢
    omega

/-- A cast to a coarser type drops what is left of the unit, rounding down; a
count the type has no room for is an error. -/
def castTemporal (t' t : TemporalType) (count : ℤ) : Option Value :=
  let q := count * t.unitNs / t'.unitNs
  if t'.InRange q then some (.temporal t' q) else none

end Types

structure Database.Lawful (db : Database) : Prop where
  regex : db.regex.Lawful
  toText_varchar : ∀ s, db.toText (.varchar s) = s

/-- The casts of the database. No number has only finitely many numerals. -/
structure Database.LawfulCasts (db : Database) : Prop where
  temporal : ∀ t' t count, db.cast (.temporal t') (.temporal t count) = castTemporal t' t count
  less_temporal : ∀ t a b, db.less (.temporal t a) (.temporal t b) = decide (a < b)
  varchar : ∀ s, db.cast .varchar (.varchar s) = some (.varchar s)
  numerals : ∀ n s v, db.cast (.number n) (.varchar s) = some v →
    ∀ l : List Str, ∃ s', s' ∉ l ∧ db.cast (.number n) (.varchar s') = some v

section Reference

theorem readDigits_zeros {s : Str} (k : ℕ) {n : ℕ} (h : readDigits s = some n) :
    readDigits (List.replicate k '0' ++ s) = some n := by
  induction k with
  | zero => exact h
  | succ k ih =>
    rw [List.replicate_succ, List.cons_append]
    unfold readDigits at ih ⊢
    split_ifs at ih with hd
    rw [if_pos ⟨List.cons_ne_nil _ _, by rw [List.all_cons, hd.2]; rfl⟩]
    exact ih

theorem readDecimal_longer {s : Str} {x : ℤ} (h : readDecimal s = some x) (k : ℕ) :
    ∃ s', k < s'.length ∧ readDecimal s' = some x := by
  unfold readDecimal at h
  split at h
  · rename_i s
    obtain ⟨n, hn, rfl⟩ := Option.map_eq_some_iff.mp h
    refine ⟨'-' :: (List.replicate k '0' ++ s), ?_, ?_⟩
    · simp only [List.length_cons, List.length_append, List.length_replicate]
      omega
    · rw [readDecimal, readDigits_zeros k hn]
      rfl
  · obtain ⟨n, hn, rfl⟩ := Option.map_eq_some_iff.mp h
    refine ⟨List.replicate (k + 1) '0' ++ s, ?_, ?_⟩
    · simp only [List.length_append, List.length_replicate]
      omega
    · have hzeros := readDigits_zeros (k + 1) hn
      rw [List.replicate_succ, List.cons_append] at hzeros ⊢
      rw [readDecimal, hzeros]
      · rfl
      · simp

def Database.reference : Database where
  regex := Regex.reference
  cast
    | .temporal t', .temporal t count => castTemporal t' t count
    | .varchar, .varchar s => some (.varchar s)
    | .varchar, .number _ q => some (.varchar (toDecimal q.num))
    | .number n, .varchar s => (readDecimal s).map (fun x : ℤ ↦ .number n x)
    | _, _ => none
  toText
    | .varchar s => s
    | .number _ q => toDecimal q.num
    | _ => []
  less
    | .temporal _ a, .temporal _ b => a < b
    | .number _ a, .number _ b => a < b
    | _, _ => false
  function _ _ := none
  consistent _ := false
  special _ _ := none
  specialConsistent _ := false

theorem Database.reference_lawful : Database.reference.Lawful where
  regex := Regex.reference_lawful
  toText_varchar _ := rfl

theorem Database.reference_lawfulCasts : Database.reference.LawfulCasts where
  temporal _ _ _ := rfl
  less_temporal _ _ _ := rfl
  varchar _ := rfl
  numerals n s v h l := by
    obtain ⟨x, hx, rfl⟩ := Option.map_eq_some_iff.mp
      (show (readDecimal s).map (fun x : ℤ ↦ Value.number n x) = some v from h)
    obtain ⟨s', hlong, hs'⟩ := readDecimal_longer hx (l.map List.length).sum
    refine ⟨s', fun hmem ↦ ?_, ?_⟩
    · have := List.single_le_sum (fun _ _ ↦ Nat.zero_le _) _
        (List.mem_map_of_mem (f := List.length) hmem)
      omega
    · change (readDecimal s').map (fun x : ℤ ↦ Value.number n x) = _
      rw [hs']
      rfl

end Reference

end DuckdbLoki
