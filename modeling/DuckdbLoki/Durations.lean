import DuckdbLoki.Reading.Framing
import DuckdbLoki.TimeBounds

namespace DuckdbLoki

def unitSuffixes : List (Str × ℤ) :=
  [([], 10 ^ 9), ("ms".toList, 10 ^ 6), ("s".toList, 10 ^ 9), ("m".toList, 60 * 10 ^ 9),
    ("h".toList, 3600 * 10 ^ 9), ("d".toList, 86400 * 10 ^ 9)]

structure DurationParts (text : Str) (n : ℕ) (unitNanos : ℤ) (before digits suffix after : Str) :
    Prop where
  text : text = before ++ (digits ++ suffix ++ after)
  before_blank : ∀ c ∈ before, c = ' ' ∨ c = '\t'
  digits_ne : digits ≠ []
  digits_all : ∀ c ∈ digits, c.isDigit = true
  value : Nat.ofDigitChars 10 digits 0 = n
  unit : (suffix.map Char.toLower, unitNanos) ∈ unitSuffixes
  after_blank : ∀ c ∈ after, c = ' ' ∨ c = '\t'

def IsDuration (text : Str) (n : ℕ) (unitNanos : ℤ) : Prop :=
  ∃ before digits suffix after, DurationParts text n unitNanos before digits suffix after

section Units

variable {suffix : Str} {unitNanos : ℤ}

theorem durationUnit_eq_some : durationUnit suffix = some unitNanos ↔
    (suffix, unitNanos) ∈ unitSuffixes := by
  constructor
  · intro h
    unfold durationUnit at h
    split_ifs at h with hs hms hm hh hd <;> rw [← Option.some.inj h]
    · rcases hs with hs | hs <;> rw [hs] <;> decide
    · rw [hms]
      decide
    · rw [hm]
      decide
    · rw [hh]
      decide
    · rw [hd]
      decide
  · intro h
    simp only [unitSuffixes, List.mem_cons, List.not_mem_nil, or_false, Prod.mk.injEq] at h
    rcases h with ⟨hs, hn⟩ | ⟨hs, hn⟩ | ⟨hs, hn⟩ | ⟨hs, hn⟩ | ⟨hs, hn⟩ | ⟨hs, hn⟩
    all_goals
      rw [hs, hn]
      decide

theorem isBlank_eq_true {c : Char} : isBlank c = true ↔ c = ' ' ∨ c = '\t' := by
  simp [isBlank]

theorem toLower_of_isDigit {c : Char} (h : c.isDigit = true) : c.toLower = c := by
  have hle := (Char.isDigit_iff_toNat.mp h).2
  unfold Char.toLower
  rw [dif_neg]
  intro hupper
  have hge : 65 ≤ c.toNat := UInt32.le_iff_toNat_le.mp hupper.1
  change c.toNat ≤ 57 at hle
  omega

theorem suffix_letters (h : (suffix.map Char.toLower, unitNanos) ∈ unitSuffixes) :
    ∀ c ∈ suffix, isBlank c = false ∧ c.isDigit = false := by
  have hall : unitSuffixes.all (fun u ↦ u.1.all (fun d ↦ ! isBlank d && ! d.isDigit)) = true := by
    decide
  intro c hc
  have hlower := List.all_eq_true.mp (List.all_eq_true.mp hall _ h) _ (List.mem_map_of_mem hc)
  rw [Bool.and_eq_true, Bool.not_eq_true', Bool.not_eq_true'] at hlower
  constructor
  · by_contra hblank
    rcases isBlank_eq_true.mp (eq_true_of_ne_false hblank) with hc | hc
    · rw [hc] at hlower
      exact absurd hlower.1 (by decide)
    · rw [hc] at hlower
      exact absurd hlower.1 (by decide)
  · by_contra hdigit
    rw [toLower_of_isDigit (eq_true_of_ne_false hdigit)] at hlower
    exact hdigit hlower.2

end Units

section Digits

def durationTooLarge (text : Str) : TimeError :=
  .outOfRange ("loki: duration '".toList ++ text ++ "' is too large".toList)

theorem readDurationDigit_run (text : Str) {value : ℕ} {c : Char} (hvalue : InInt64 value)
    (hc : c.isDigit = true) : (readDurationDigit text value c).run =
      some (if InInt64 (10 * value + (c.toNat - '0'.toNat) : ℕ) then
        .ok ((10 * value + (c.toNat - '0'.toNat) : ℕ) : ℤ) else .error (durationTooLarge text)) := by
  obtain ⟨hge, hle⟩ := Char.isDigit_iff_toNat.mp hc
  have hdigit : ((c.toNat : ℤ) - '0'.toNat) = ((c.toNat - '0'.toNat : ℕ) : ℤ) :=
    (Int.ofNat_sub hge).symm
  have hsmall : InInt64 ((c.toNat - '0'.toNat : ℕ) : ℤ) := by
    change c.toNat ≤ 57 at hle
    unfold InInt64 int64Min int64Max
    omega
  unfold readDurationDigit
  rw [tryMultiplyNanos_eq hvalue (by decide)]
  change (orThrow _ (durationTooLarge text) >>= _).run = _
  rw [orThrow_bind_fitted]
  by_cases hshifted : InInt64 ((value : ℤ) * 10)
  · rw [if_pos hshifted, hdigit, tryAddNanos_eq hshifted hsmall]
    change (orThrow _ (durationTooLarge text)).run = _
    rw [orThrow_fitted]
    push_cast
    rw [Int.mul_comm]
  · have hsum : ¬ InInt64 ((10 * value + (c.toNat - '0'.toNat) : ℕ) : ℤ) := by
      unfold InInt64 int64Min int64Max at *
      omega
    rw [if_neg hshifted, if_neg hsum]

theorem le_ofDigitChars (digits : Str) (value : ℕ) : value ≤ Nat.ofDigitChars 10 digits value := by
  induction digits generalizing value with
  | nil => rw [Nat.ofDigitChars_nil]
  | cons c digits ih =>
    rw [Nat.ofDigitChars_cons]
    exact le_trans (by omega) (ih _)

/-- The loop over the digits reads their value, unless it is too large. -/
theorem foldlM_readDurationDigit (text : Str) {digits : Str} {value : ℕ} (hvalue : InInt64 value)
    (hdigits : ∀ c ∈ digits, c.isDigit = true) :
    (digits.foldlM (readDurationDigit text) (value : ℤ)).run =
      some (if InInt64 (Nat.ofDigitChars 10 digits value) then
        .ok (Nat.ofDigitChars 10 digits value : ℤ) else .error (durationTooLarge text)) := by
  induction digits generalizing value with
  | nil =>
    rw [Nat.ofDigitChars_nil, if_pos hvalue]
    rfl
  | cons c digits ih =>
    obtain ⟨hc, hdigits⟩ := List.forall_mem_cons.mp hdigits
    have hstep := readDurationDigit_run text hvalue hc
    rw [List.foldlM_cons, Nat.ofDigitChars_cons]
    by_cases hsum : InInt64 ((10 * value + (c.toNat - '0'.toNat) : ℕ) : ℤ)
    · rw [if_pos hsum] at hstep
      rw [bind_of_ok hstep, ih hsum hdigits]
    · have hle := le_ofDigitChars digits (10 * value + (c.toNat - '0'.toNat))
      have hlarge : ¬ InInt64
          (Nat.ofDigitChars 10 digits (10 * value + (c.toNat - '0'.toNat)) : ℤ) := by
        unfold InInt64 int64Min int64Max at *
        omega
      rw [if_neg hsum] at hstep
      rw [bind_of_error hstep, if_neg hlarge]

end Digits

section Durations

variable {text : Str} {n : ℕ} {unitNanos : ℤ} {before digits suffix after : Str}

theorem isBlank_of_isDigit {c : Char} (h : c.isDigit = true) : isBlank c = false := by
  by_contra hblank
  rcases isBlank_eq_true.mp (eq_true_of_ne_false hblank) with hc | hc
  · exact ne_of_isDigit h (by decide) hc
  · exact ne_of_isDigit h (by decide) hc

theorem DurationParts.trimmed (h : DurationParts text n unitNanos before digits suffix after) :
    (text.dropWhile isBlank).rdropWhile isBlank = digits ++ suffix := by
  have hcore : ∀ c ∈ digits ++ suffix, isBlank c = false := by
    intro c hc
    rcases List.mem_append.mp hc with hc | hc
    · exact isBlank_of_isDigit (h.digits_all c hc)
    · exact (suffix_letters h.unit c hc).1
  rw [h.text]
  apply Framing.trim_append
  · exact fun c hc ↦ isBlank_eq_true.mpr (h.before_blank c hc)
  · exact fun c hc ↦ isBlank_eq_true.mpr (h.after_blank c hc)
  · exact fun c hc ↦ hcore c (List.mem_of_mem_head? hc)
  · exact fun c hc ↦ hcore c (List.mem_of_mem_getLast? hc)

theorem DurationParts.takeDigits (h : DurationParts text n unitNanos before digits suffix after) :
    (digits ++ suffix).takeWhile Char.isDigit = digits := by
  apply Framing.takeWhile_append h.digits_all
  exact fun c hc ↦ (suffix_letters h.unit c (List.mem_of_mem_head? hc)).2

theorem DurationParts.parse (h : DurationParts text n unitNanos before digits suffix after) :
    (parseDurationToNanos text).run =
      if InInt64 n then (orThrow (tryMultiplyNanos n unitNanos 0) (.outOfRange
        ("loki: duration '".toList ++ text ++
          "' is too large to express in nanoseconds".toList))).run
      else some (.error (durationTooLarge text)) := by
  have hzero : InInt64 (0 : ℕ) := by decide
  have hread := foldlM_readDurationDigit text hzero h.digits_all
  rw [h.value] at hread
  unfold parseDurationToNanos
  dsimp only
  rw [h.trimmed, h.takeDigits, if_neg h.digits_ne, List.drop_left,
    durationUnit_eq_some.mpr h.unit]
  dsimp only
  by_cases hfits : InInt64 n
  · rw [if_pos hfits] at hread
    rw [if_pos hfits]
    exact bind_of_ok hread _
  · rw [if_neg hfits] at hread
    rw [if_neg hfits]
    exact bind_of_error hread _

theorem isDuration_of_unit {trimmed : Str}
    (htrimmed : (text.dropWhile isBlank).rdropWhile isBlank = trimmed)
    (hne : trimmed.takeWhile Char.isDigit ≠ [])
    (hunit : durationUnit ((trimmed.drop (trimmed.takeWhile Char.isDigit).length).map
      Char.toLower) = some unitNanos) :
    IsDuration text (Nat.ofDigitChars 10 (trimmed.takeWhile Char.isDigit) 0) unitNanos := by
  refine ⟨text.takeWhile isBlank, _, _, (text.dropWhile isBlank).rtakeWhile isBlank, ?_, ?_, hne,
    fun c hc ↦ List.mem_takeWhile_imp hc, rfl, durationUnit_eq_some.mp hunit, ?_⟩
  · rw [List.prefix_iff_eq_append.mp (List.takeWhile_prefix _), ← htrimmed,
      List.rdropWhile_append_rtakeWhile, List.takeWhile_append_dropWhile]
  · exact fun c hc ↦ isBlank_eq_true.mp (List.mem_takeWhile_imp hc)
  · exact fun c hc ↦ isBlank_eq_true.mp (List.mem_rtakeWhile_imp hc)

theorem parseDurationToNanos_invalid (h : ∀ n unitNanos, ¬ IsDuration text n unitNanos) :
    (parseDurationToNanos text).run = some (.error (invalidDuration text)) := by
  unfold parseDurationToNanos
  dsimp only
  split_ifs with hne
  · rfl
  · split
    · rfl
    · rename_i unitNanos hunit
      exact absurd (isDuration_of_unit rfl hne hunit) (h _ _)

theorem unitSuffixes_bounds (h : (suffix.map Char.toLower, unitNanos) ∈ unitSuffixes) :
    1 ≤ unitNanos ∧ InInt64 unitNanos := by
  have hall : unitSuffixes.all (fun u ↦ decide (1 ≤ u.2 ∧ InInt64 u.2)) = true := by decide
  exact of_decide_eq_true (List.all_eq_true.mp hall _ h)

theorem IsDuration.unit_bounds (h : IsDuration text n unitNanos) :
    1 ≤ unitNanos ∧ InInt64 unitNanos := by
  obtain ⟨before, digits, suffix, after, h⟩ := h
  exact unitSuffixes_bounds h.unit

theorem IsDuration.number_fits (h : IsDuration text n unitNanos)
    (hfits : InInt64 (n * unitNanos)) : InInt64 n := by
  have hle : (n : ℤ) ≤ n * unitNanos :=
    le_mul_of_one_le_right (Int.natCast_nonneg n) h.unit_bounds.1
  unfold InInt64 int64Min int64Max at *
  omega

theorem IsDuration.parse_of_fits (h : IsDuration text n unitNanos) (hfits : InInt64 (n * unitNanos)) :
    (parseDurationToNanos text).run = some (.ok (n * unitNanos)) := by
  have hnumber := h.number_fits hfits
  have hunit := h.unit_bounds.2
  obtain ⟨before, digits, suffix, after, h⟩ := h
  rw [h.parse, if_pos hnumber, tryMultiplyNanos_eq hnumber hunit, orThrow_fitted, if_pos hfits]

theorem IsDuration.parse_too_large (h : IsDuration text n unitNanos)
    (hlarge : ¬ InInt64 (n * unitNanos)) :
    ∃ message, (parseDurationToNanos text).run = some (.error (.outOfRange message)) := by
  have hunit := h.unit_bounds.2
  obtain ⟨before, digits, suffix, after, h⟩ := h
  rw [h.parse]
  split_ifs with hnumber
  · rw [tryMultiplyNanos_eq hnumber hunit, orThrow_fitted, if_neg hlarge]
    exact ⟨_, rfl⟩
  · exact ⟨_, rfl⟩

theorem parseDurationToNanos_cases (text : Str) :
    (∃ n unitNanos, IsDuration text n unitNanos ∧ InInt64 (n * unitNanos) ∧
      (parseDurationToNanos text).run = some (.ok (n * unitNanos))) ∨
    (∃ n unitNanos, IsDuration text n unitNanos ∧ ¬ InInt64 (n * unitNanos) ∧
      ∃ message, (parseDurationToNanos text).run = some (.error (.outOfRange message))) ∨
    (∀ n unitNanos, ¬ IsDuration text n unitNanos) ∧
      (parseDurationToNanos text).run = some (.error (invalidDuration text)) := by
  by_cases hduration : ∃ n unitNanos, IsDuration text n unitNanos
  · obtain ⟨n, unitNanos, h⟩ := hduration
    by_cases hfits : InInt64 (n * unitNanos)
    · exact Or.inl ⟨n, unitNanos, h, hfits, h.parse_of_fits hfits⟩
    · exact Or.inr (Or.inl ⟨n, unitNanos, h, hfits, h.parse_too_large hfits⟩)
  · have hnone : ∀ n unitNanos, ¬ IsDuration text n unitNanos :=
      fun n unitNanos h ↦ hduration ⟨n, unitNanos, h⟩
    exact Or.inr (Or.inr ⟨hnone, parseDurationToNanos_invalid hnone⟩)

/-- A duration that fits is read exactly. The error tells whether the text is no
duration or one that is too large, and nothing overflows on the way. -/
theorem parseDurationToNanos_exact (text : Str) :
    (∀ v, (parseDurationToNanos text).run = some (.ok v) ↔
      ∃ n unitNanos, IsDuration text n unitNanos ∧ v = n * unitNanos ∧ InInt64 v) ∧
    ((∃ message, (parseDurationToNanos text).run = some (.error (.outOfRange message))) ↔
      ∃ n unitNanos, IsDuration text n unitNanos ∧ (¬ InInt64 n ∨ ¬ InInt64 (n * unitNanos))) ∧
    ((∃ message, (parseDurationToNanos text).run = some (.error (.invalidArgument message))) ↔
      ¬ ∃ n unitNanos, IsDuration text n unitNanos) ∧
    (parseDurationToNanos text).run ≠ none := by
  refine ⟨?_, ⟨?_, ?_⟩, ⟨?_, ?_⟩, ?_⟩
  · intro v
    constructor
    · intro hv
      rcases parseDurationToNanos_cases text with
        ⟨n, unitNanos, h, hfits, hok⟩ | ⟨_, _, _, _, _, herror⟩ | ⟨_, herror⟩
      · rw [hok] at hv
        have hvalue := Except.ok.inj (Option.some.inj hv)
        exact ⟨n, unitNanos, h, hvalue.symm, hvalue ▸ hfits⟩
      · cases hv.symm.trans herror
      · cases hv.symm.trans herror
    · intro ⟨n, unitNanos, h, hvalue, hfits⟩
      rw [hvalue] at hfits ⊢
      exact h.parse_of_fits hfits
  · intro ⟨message, hmessage⟩
    rcases parseDurationToNanos_cases text with
      ⟨_, _, _, _, hok⟩ | ⟨n, unitNanos, h, hlarge, _⟩ | ⟨_, herror⟩
    · cases hmessage.symm.trans hok
    · exact ⟨n, unitNanos, h, Or.inr hlarge⟩
    · cases hmessage.symm.trans herror
  · intro ⟨n, unitNanos, h, hlarge⟩
    apply h.parse_too_large
    rcases hlarge with hnumber | hproduct
    · exact fun hfits ↦ hnumber (h.number_fits hfits)
    · exact hproduct
  · intro ⟨message, hmessage⟩ ⟨n, unitNanos, h⟩
    rcases parseDurationToNanos_cases text with
      ⟨_, _, _, _, hok⟩ | ⟨_, _, _, _, _, herror⟩ | ⟨hnone, _⟩
    · cases hmessage.symm.trans hok
    · cases hmessage.symm.trans herror
    · exact hnone n unitNanos h
  · intro hnone
    exact ⟨_, parseDurationToNanos_invalid (fun n unitNanos h ↦ hnone ⟨n, unitNanos, h⟩)⟩
  · rcases parseDurationToNanos_cases text with
      ⟨_, _, _, _, hok⟩ | ⟨_, _, _, _, _, herror⟩ | ⟨_, herror⟩
    · exact hok ▸ Option.some_ne_none _
    · exact herror ▸ Option.some_ne_none _
    · exact herror ▸ Option.some_ne_none _

end Durations

end DuckdbLoki
