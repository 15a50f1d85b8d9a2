import DuckdbLoki.Base
import Mathlib.Algebra.Order.Ring.Int
import Mathlib.Data.List.DropRight

namespace DuckdbLoki

section Arithmetic

/-- Signed division: it cuts towards zero, and has no result for a zero divisor
or where the quotient overflows. -/
def divided (left right : ℤ) : Option ℤ := if right = 0 then none else checked (left.tdiv right)

/-- Whether the sum fits, and what `result` is left with. -/
def tryAddNanos (left right result : ℤ) : Option (Bool × ℤ) :=
  if 0 < right then
    (checked (int64Max - right)).bind (fun most ↦
      if most < left then some (false, result)
      else (checked (left + right)).map (fun sum ↦ (true, sum)))
  else if right < 0 then
    (checked (int64Min - right)).bind (fun least ↦
      if left < least then some (false, result)
      else (checked (left + right)).map (fun sum ↦ (true, sum)))
  else (checked (left + right)).map (fun sum ↦ (true, sum))

def productOverflows (left right : ℤ) : Option Bool :=
  if 0 < left then
    if 0 < right then (divided int64Max right).map (fun q ↦ q < left)
    else (divided int64Min left).map (fun q ↦ right < q)
  else
    if 0 < right then (divided int64Min right).map (fun q ↦ left < q)
    else (divided int64Max right).map (fun q ↦ left < q)

def tryMultiplyNanos (left right result : ℤ) : Option (Bool × ℤ) :=
  if left = 0 ∨ right = 0 then some (true, 0)
  else if left = -1 then
    if right = int64Min then some (false, result)
    else (checked (-right)).map (fun product ↦ (true, product))
  else if right = -1 then
    if left = int64Min then some (false, result)
    else (checked (-left)).map (fun product ↦ (true, product))
  else (productOverflows left right).bind (fun overflows ↦
    if overflows then some (false, result)
    else (checked (left * right)).map (fun product ↦ (true, product)))

def fitted (exact result : ℤ) : Bool × ℤ := if InInt64 exact then (true, exact) else (false, result)

theorem checked_fitted {exact : ℤ} (h : InInt64 exact) (result : ℤ) :
    (checked exact).map (fun value ↦ (true, value)) = some (fitted exact result) := by
  rw [checked_of_inInt64 h, fitted, if_pos h]
  rfl

theorem guarded_fitted {exact : ℤ} {fails : Prop} [Decidable fails] (h : fails ↔ ¬ InInt64 exact)
    (result : ℤ) : (if fails then some (false, result)
      else (checked exact).map (fun value ↦ (true, value))) = some (fitted exact result) := by
  split_ifs with hfails
  · rw [fitted, if_neg (h.mp hfails)]
  · exact checked_fitted (not_not.mp (fun hout ↦ hfails (h.mpr hout))) result

variable {left right : ℤ}

theorem tryAddNanos_eq (hleft : InInt64 left) (hright : InInt64 right) (result : ℤ) :
    tryAddNanos left right result = some (fitted (left + right) result) := by
  have hmax : 0 < right → InInt64 (int64Max - right) := by
    unfold InInt64 int64Min int64Max at *
    omega
  have hmin : right < 0 → InInt64 (int64Min - right) := by
    unfold InInt64 int64Min int64Max at *
    omega
  rw [tryAddNanos]
  split_ifs with hpos hneg
  · rw [checked_of_inInt64 (hmax hpos), Option.bind_some]
    apply guarded_fitted
    unfold InInt64 int64Min int64Max at *
    omega
  · rw [checked_of_inInt64 (hmin hneg), Option.bind_some]
    apply guarded_fitted
    unfold InInt64 int64Min int64Max at *
    omega
  · apply checked_fitted
    unfold InInt64 int64Min int64Max at *
    omega

theorem divided_max (h : right ≠ 0) : divided int64Max right = some (int64Max.tdiv right) := by
  have hfits : InInt64 (int64Max.tdiv right) := by
    have habs := Int.natAbs_tdiv_le_natAbs int64Max right
    unfold InInt64 int64Min int64Max at *
    omega
  rw [divided, if_neg h, checked_of_inInt64 hfits]

theorem divided_min (h : 0 < right) : divided int64Min right = some (int64Min.tdiv right) := by
  have hfits : InInt64 (int64Min.tdiv right) := by
    have habs := Int.natAbs_tdiv_le_natAbs int64Min right
    have hneg : int64Min.tdiv right = -(-int64Min).tdiv right := by
      rw [Int.neg_tdiv, Int.neg_neg]
    have hnonneg : 0 ≤ (-int64Min).tdiv right := Int.tdiv_nonneg (by decide) h.le
    unfold InInt64 int64Min int64Max at *
    omega
  rw [divided, if_neg h.ne', checked_of_inInt64 hfits]

/-- A quotient cut towards zero, compared with a negative number. -/
theorem lt_neg_tdiv_iff {a b d : ℤ} (ha : 0 ≤ a) (hd : 0 < d) : b < -a.tdiv d ↔ a < -b * d := by
  rw [← Int.ediv_lt_iff_lt_mul hd, Int.tdiv_eq_ediv_of_nonneg ha]
  omega

theorem productOverflows_eq (hleft : left ≠ 0) (hright : right ≠ 0) :
    productOverflows left right = some (decide (¬ InInt64 (left * right))) := by
  have hmin : int64Min = -(-int64Min) := rfl
  rw [productOverflows]
  split_ifs with hpos hpos' hpos'
  · have hproduct := Int.mul_pos hpos hpos'
    rw [divided_max hright, Option.map_some, Option.some_inj, decide_eq_decide,
      Int.tdiv_eq_ediv_of_nonneg (by decide), Int.ediv_lt_iff_lt_mul hpos']
    unfold InInt64 int64Min int64Max at *
    omega
  · have hproduct := Int.mul_neg_of_pos_of_neg hpos (lt_of_le_of_ne (not_lt.mp hpos') hright)
    rw [divided_min hpos, Option.map_some, Option.some_inj, decide_eq_decide, hmin, Int.neg_tdiv,
      lt_neg_tdiv_iff (by decide) hpos, Int.neg_mul, Int.mul_comm]
    unfold InInt64 int64Min int64Max at *
    omega
  · have hproduct := Int.mul_neg_of_neg_of_pos (lt_of_le_of_ne (not_lt.mp hpos) hleft) hpos'
    rw [divided_min hpos', Option.map_some, Option.some_inj, decide_eq_decide, hmin, Int.neg_tdiv,
      lt_neg_tdiv_iff (by decide) hpos', Int.neg_mul]
    unfold InInt64 int64Min int64Max at *
    omega
  · have hleft' := lt_of_le_of_ne (not_lt.mp hpos) hleft
    have hright' := lt_of_le_of_ne (not_lt.mp hpos') hright
    have hproduct := Int.mul_pos_of_neg_of_neg hleft' hright'
    have hdiv : int64Max.tdiv right = -int64Max.tdiv (-right) := by
      rw [Int.tdiv_neg, Int.neg_neg]
    rw [divided_max hright, Option.map_some, Option.some_inj, decide_eq_decide, hdiv,
      lt_neg_tdiv_iff (by decide) (Int.neg_pos_of_neg hright'), Int.neg_mul_neg]
    unfold InInt64 int64Min int64Max at *
    omega

/-- Multiplication tells exactly whether the product fits, and never overflows
on the way. -/
theorem tryMultiplyNanos_eq (hleft : InInt64 left) (hright : InInt64 right) (result : ℤ) :
    tryMultiplyNanos left right result = some (fitted (left * right) result) := by
  rw [tryMultiplyNanos]
  split_ifs with hzero hleft₁ hmin hright₁ hmin
  · have hproduct : left * right = 0 := Int.mul_eq_zero.mpr hzero
    rw [hproduct]
    rfl
  · rw [hleft₁, hmin]
    rfl
  · have hproduct : left * right = -right := by rw [hleft₁, Int.neg_one_mul]
    rw [hproduct]
    apply checked_fitted
    unfold InInt64 int64Min int64Max at *
    omega
  · rw [hright₁, hmin]
    rfl
  · have hproduct : left * right = -left := by rw [hright₁, Int.mul_neg_one]
    rw [hproduct]
    apply checked_fitted
    unfold InInt64 int64Min int64Max at *
    omega
  · rw [not_or] at hzero
    rw [productOverflows_eq hzero.1 hzero.2, Option.bind_some]
    exact guarded_fitted decide_eq_true_iff result

/-- It succeeds exactly where the product fits, and hands out the product; else
it leaves the result as it was. -/
theorem tryMultiplyNanos_exact (hleft : InInt64 left) (hright : InInt64 right) (result : ℤ) :
    ∃ ok value, tryMultiplyNanos left right result = some (ok, value) ∧
      (ok = true ↔ InInt64 (left * right)) ∧ (ok = true → value = left * right) ∧
      (ok = false → value = result) := by
  rw [tryMultiplyNanos_eq hleft hright]
  unfold fitted
  split_ifs with h
  · exact ⟨true, left * right, rfl, iff_of_true rfl h, fun _ ↦ rfl, nofun⟩
  · exact ⟨false, result, rfl, iff_of_false Bool.false_ne_true h, nofun, fun _ ↦ rfl⟩

theorem tryMultiplyNanos_exact_minimum : ∃ ok value,
    tryMultiplyNanos (-1) int64Min 7 = some (ok, value) ∧
      (ok = true ↔ InInt64 (-1 * int64Min)) ∧ (ok = true → value = -1 * int64Min) ∧
      (ok = false → value = 7) :=
  tryMultiplyNanos_exact (by decide) (by decide) 7

variable {exact result x : ℤ}

theorem checked_map_true (h : (checked exact).map (fun value ↦ (true, value)) = some (true, x)) :
    InInt64 x ∧ x = exact := by
  obtain ⟨value, hvalue, heq⟩ := Option.map_eq_some_iff.mp h
  obtain ⟨hfits, hexact⟩ := checked_eq_some.mp hvalue
  rw [← (Prod.mk.inj heq).2, ← hexact]
  exact ⟨hfits, rfl⟩

theorem tryMultiplyNanos_true (h : tryMultiplyNanos left right result = some (true, x)) :
    InInt64 x ∧ x = left * right := by
  unfold tryMultiplyNanos at h
  split_ifs at h with hzero hleft hmin hright hmin
  · rw [← (Prod.mk.inj (Option.some.inj h)).2, Int.mul_eq_zero.mpr hzero]
    exact ⟨by decide, rfl⟩
  · cases h
  · rw [hleft, Int.neg_one_mul]
    exact checked_map_true h
  · cases h
  · rw [hright, Int.mul_neg_one]
    exact checked_map_true h
  · obtain ⟨overflows, _, h⟩ := Option.bind_eq_some_iff.mp h
    split_ifs at h
    · cases h
    · exact checked_map_true h

theorem tryAddNanos_true (h : tryAddNanos left right result = some (true, x)) :
    InInt64 x ∧ x = left + right := by
  unfold tryAddNanos at h
  split_ifs at h
  · obtain ⟨most, _, h⟩ := Option.bind_eq_some_iff.mp h
    split_ifs at h
    · cases h
    · exact checked_map_true h
  · obtain ⟨least, _, h⟩ := Option.bind_eq_some_iff.mp h
    split_ifs at h
    · cases h
    · exact checked_map_true h
  · exact checked_map_true h

end Arithmetic

section Durations

inductive TimeError
  | invalidArgument (message : Str)
  | outOfRange (message : Str)
deriving DecidableEq

def orThrow {ε : Type} (operation : Option (Bool × ℤ)) (error : ε) : ExceptT ε Option ℤ :=
  operation.map (fun (ok, value) ↦ if ok then .ok value else .error error)

def nanosPerDay : ℤ := 86400 * 1000 * 1000 * 1000

def nanosPerMicro : ℤ := 1000

def nanosPerMilli : ℤ := 1000 * 1000

def intervalHasMonths : TimeError :=
  .invalidArgument ("loki_scan: month/year INTERVAL bounds are calendar-dependent and not " ++
    "supported; pass an absolute TIMESTAMP (e.g. now() - INTERVAL 30 DAY) instead").toList

def intervalTooLarge : TimeError :=
  .outOfRange ("loki_scan: INTERVAL bound is too large to express as a nanosecond offset; " ++
    "pass an absolute TIMESTAMP instead").toList

def intervalToNanos (months days micros : ℤ) : ExceptT TimeError Option ℤ := do
  if months ≠ 0 then throw intervalHasMonths
  let dayNanos ← orThrow (tryMultiplyNanos days nanosPerDay 0) intervalTooLarge
  let microNanos ← orThrow (tryMultiplyNanos micros nanosPerMicro 0) intervalTooLarge
  orThrow (tryAddNanos dayNanos microNanos 0) intervalTooLarge

def invalidDuration (text : Str) : TimeError :=
  .invalidArgument ("loki: invalid duration '".toList ++ text ++
    ("'; expected a non-negative number with an optional unit suffix (ms, s, m, h, d) " ++
      "\u00e2\u0080\u0094 e.g. '0', '30s', '5m', '1h'").toList)

def isBlank (c : Char) : Bool := c = ' ' || c = '\t'

def durationUnit (suffix : Str) : Option ℤ :=
  if suffix = [] ∨ suffix = "s".toList then some (1000 * nanosPerMilli)
  else if suffix = "ms".toList then some nanosPerMilli
  else if suffix = "m".toList then some (60 * 1000 * nanosPerMilli)
  else if suffix = "h".toList then some (3600 * 1000 * nanosPerMilli)
  else if suffix = "d".toList then some (86400 * 1000 * nanosPerMilli)
  else none

def readDurationDigit (text : Str) (value : ℤ) (digit : Char) : ExceptT TimeError Option ℤ := do
  let tooLarge := .outOfRange ("loki: duration '".toList ++ text ++ "' is too large".toList)
  let shifted ← orThrow (tryMultiplyNanos value 10 value) tooLarge
  orThrow (tryAddNanos shifted ((digit.toNat : ℤ) - '0'.toNat) shifted) tooLarge

def parseDurationToNanos (text : Str) : ExceptT TimeError Option ℤ :=
  let trimmed := (text.dropWhile isBlank).rdropWhile isBlank
  let digits := trimmed.takeWhile Char.isDigit
  if digits = [] then throw (invalidDuration text)
  else
    match durationUnit ((trimmed.drop digits.length).map Char.toLower) with
    | none => throw (invalidDuration text)
    | some unitNanos => do
      let value ← digits.foldlM (readDurationDigit text) 0
      orThrow (tryMultiplyNanos value unitNanos 0) (.outOfRange ("loki: duration '".toList ++
        text ++ "' is too large to express in nanoseconds".toList))

end Durations

section Bounds

def TimeError.message : TimeError → Str
  | .invalidArgument message => message
  | .outOfRange message => message

/-- A value given for a time bound. One that is no `INTERVAL` is cast to
`TIMESTAMP`: its microseconds, unless it is infinite, and its text. -/
inductive TimeArgument
  | interval (months days micros : ℤ)
  | other (cast : Except Str (Option ℤ × Str))

def outsideNanos (text : Str) : Str :=
  "loki: time bound '".toList ++ text ++
    "' is outside the range representable in nanoseconds (1677-09-21 .. 2262-04-11)".toList

def valueToEpochNs : Except Str (Option ℤ × Str) → ExceptT Str Option ℤ
  | .error message => throw message
  | .ok (none, text) => throw (outsideNanos text)
  | .ok (some micros, text) =>
    if InInt64 (micros * nanosPerMicro) then pure (micros * nanosPerMicro)
    else throw (outsideNanos text)

def intervalTooFar : Str :=
  ("loki: INTERVAL time bound is too far from now to express as a nanosecond timestamp; " ++
    "pass an absolute TIMESTAMP instead").toList

def resolveTimeBound (nowNs : ℤ) : TimeArgument → ExceptT Str Option ℤ
  | .interval months days micros => do
    let offsetNs ← (intervalToNanos months days micros).adapt TimeError.message
    orThrow (tryAddNanos nowNs offsetNs 0) intervalTooFar
  | .other cast => valueToEpochNs cast

end Bounds

section Intervals

def InInt32 (x : ℤ) : Prop := -2147483648 ≤ x ∧ x ≤ 2147483647

instance (x : ℤ) : Decidable (InInt32 x) := inferInstanceAs (Decidable (_ ∧ _))

structure IntervalFits (nowNs months days micros : ℤ) : Prop where
  months : months = 0
  dayPart : InInt64 (days * (86400 * 10 ^ 9))
  microPart : InInt64 (micros * 1000)
  offset : InInt64 (days * (86400 * 10 ^ 9) + micros * 1000)
  bound : InInt64 (nowNs + (days * (86400 * 10 ^ 9) + micros * 1000))

variable {nowNs months days micros : ℤ}

theorem orThrow_fitted {ε : Type} (exact result : ℤ) (error : ε) :
    (orThrow (some (fitted exact result)) error).run =
      some (if InInt64 exact then .ok exact else .error error) := by
  unfold fitted
  split_ifs <;> rfl

theorem orThrow_bind_fitted {ε α : Type} (exact result : ℤ) (error : ε)
    (f : ℤ → ExceptT ε Option α) :
    (orThrow (some (fitted exact result)) error >>= f).run =
      if InInt64 exact then (f exact).run else some (.error error) := by
  unfold fitted
  split_ifs <;> rfl

theorem intervalToNanos_months (h : months ≠ 0) :
    (intervalToNanos months days micros).run = some (.error intervalHasMonths) := by
  unfold intervalToNanos
  rw [if_pos h]
  rfl

theorem intervalToNanos_eq (hdays : InInt32 days) (hmicros : InInt64 micros) :
    (intervalToNanos 0 days micros).run =
      some (if InInt64 (days * nanosPerDay) ∧ InInt64 (micros * nanosPerMicro) ∧
          InInt64 (days * nanosPerDay + micros * nanosPerMicro) then
        .ok (days * nanosPerDay + micros * nanosPerMicro) else .error intervalTooLarge) := by
  have hdays' : InInt64 days := by
    unfold InInt32 at hdays
    unfold InInt64 int64Min int64Max
    omega
  unfold intervalToNanos
  rw [if_neg (not_not.mpr rfl)]
  change (orThrow (tryMultiplyNanos days nanosPerDay 0) intervalTooLarge >>= _).run = _
  rw [tryMultiplyNanos_eq hdays' (by decide), orThrow_bind_fitted]
  by_cases hday : InInt64 (days * nanosPerDay)
  · rw [if_pos hday, tryMultiplyNanos_eq hmicros (by decide), orThrow_bind_fitted]
    by_cases hmicro : InInt64 (micros * nanosPerMicro)
    · rw [if_pos hmicro, tryAddNanos_eq hday hmicro, orThrow_fitted]
      simp only [hday, hmicro, true_and]
    · rw [if_neg hmicro, if_neg (fun h ↦ hmicro h.2.1)]
  · rw [if_neg hday, if_neg (fun h ↦ hday h.1)]

theorem resolveTimeBound_throws {error : TimeError}
    (h : (intervalToNanos months days micros).run = some (.error error)) :
    (resolveTimeBound nowNs (.interval months days micros)).run = some (.error error.message) := by
  change (((intervalToNanos months days micros).run.map (Except.mapError TimeError.message)).bind
    _) = _
  rw [h]
  rfl

theorem resolveTimeBound_adds {offsetNs : ℤ} (hnow : InInt64 nowNs) (hoffset : InInt64 offsetNs)
    (h : (intervalToNanos months days micros).run = some (.ok offsetNs)) :
    (resolveTimeBound nowNs (.interval months days micros)).run =
      some (if InInt64 (nowNs + offsetNs) then .ok (nowNs + offsetNs)
        else .error intervalTooFar) := by
  change (((intervalToNanos months days micros).run.map (Except.mapError TimeError.message)).bind
    _) = _
  rw [h]
  change (orThrow (tryAddNanos nowNs offsetNs 0) intervalTooFar).run = _
  rw [tryAddNanos_eq hnow hoffset, orThrow_fitted]

/-- An interval is added exactly or refused, and nothing overflows on the way. -/
theorem resolveTimeBound_interval (hnow : InInt64 nowNs) (hdays : InInt32 days)
    (hmicros : InInt64 micros) :
    (IntervalFits nowNs months days micros →
      (resolveTimeBound nowNs (.interval months days micros)).run =
        some (.ok (nowNs + (days * (86400 * 10 ^ 9) + micros * 1000)))) ∧
    (¬ IntervalFits nowNs months days micros →
      ∃ message ∈ [intervalHasMonths.message, intervalTooLarge.message, intervalTooFar],
        (resolveTimeBound nowNs (.interval months days micros)).run = some (.error message)) := by
  have hday : nanosPerDay = 86400 * 10 ^ 9 := rfl
  have hmicro : nanosPerMicro = 1000 := rfl
  have hoffset := intervalToNanos_eq hdays hmicros
  rw [hday, hmicro] at hoffset
  constructor
  · intro h
    rw [if_pos ⟨h.dayPart, h.microPart, h.offset⟩, ← h.months] at hoffset
    rw [resolveTimeBound_adds hnow h.offset hoffset, if_pos h.bound]
  · intro h
    by_cases hmonths : months = 0
    · rw [← hmonths] at hoffset
      by_cases hfits : InInt64 (days * (86400 * 10 ^ 9)) ∧ InInt64 (micros * 1000) ∧
          InInt64 (days * (86400 * 10 ^ 9) + micros * 1000)
      · rw [if_pos hfits] at hoffset
        refine ⟨intervalTooFar, by simp, ?_⟩
        rw [resolveTimeBound_adds hnow hfits.2.2 hoffset, if_neg]
        intro hbound
        exact h ⟨hmonths, hfits.1, hfits.2.1, hfits.2.2, hbound⟩
      · rw [if_neg hfits] at hoffset
        exact ⟨intervalTooLarge.message, by simp, resolveTimeBound_throws hoffset⟩
    · exact ⟨intervalHasMonths.message, by simp,
        resolveTimeBound_throws (intervalToNanos_months hmonths)⟩

theorem resolveTimeBound_interval_day :
    (resolveTimeBound 1700000000000000000 (.interval 0 (-1) 500)).run =
      some (.ok (1700000000000000000 + (-1 * (86400 * 10 ^ 9) + 500 * 1000))) :=
  (resolveTimeBound_interval (by decide) (by decide) (by decide)).1
    ⟨rfl, by decide, by decide, by decide, by decide⟩

end Intervals

section Results

theorem bind_eq_ok {ε α β : Type} {x : ExceptT ε Option α} {f : α → ExceptT ε Option β} {b : β}
    (h : (x >>= f).run = some (.ok b)) : ∃ a, x.run = some (.ok a) ∧ (f a).run = some (.ok b) := by
  obtain ⟨result, hx, hf⟩ := Option.bind_eq_some_iff.mp h
  cases result with
  | error e => cases hf
  | ok a => exact ⟨a, hx, hf⟩

theorem bind_of_ok {ε α β : Type} {x : ExceptT ε Option α} {a : α} (h : x.run = some (.ok a))
    (f : α → ExceptT ε Option β) : (x >>= f).run = (f a).run := by
  change x.run.bind _ = _
  rw [h]
  rfl

theorem bind_of_error {ε α β : Type} {x : ExceptT ε Option α} {e : ε} (h : x.run = some (.error e))
    (f : α → ExceptT ε Option β) : (x >>= f).run = some (.error e) := by
  change x.run.bind _ = _
  rw [h]
  rfl

theorem orThrow_eq_ok {ε : Type} {operation : Option (Bool × ℤ)} {error : ε} {x : ℤ}
    (h : (orThrow operation error).run = some (.ok x)) : operation = some (true, x) := by
  obtain ⟨⟨ok, value⟩, hoperation, heq⟩ := Option.map_eq_some_iff.mp h
  dsimp only at heq
  split_ifs at heq with hok
  rw [hoperation, hok, Except.ok.inj heq]

theorem intervalToNanos_eq_ok {months days micros x : ℤ}
    (h : (intervalToNanos months days micros).run = some (.ok x)) :
    months = 0 ∧ x = days * nanosPerDay + micros * nanosPerMicro ∧ InInt64 x := by
  unfold intervalToNanos at h
  dsimp only at h
  split_ifs at h with hmonths
  · obtain ⟨_, hthrow, _⟩ := bind_eq_ok h
    cases hthrow
  · obtain ⟨dayNanos, hday, h⟩ := bind_eq_ok h
    obtain ⟨microNanos, hmicro, h⟩ := bind_eq_ok h
    obtain ⟨hfits, hsum⟩ := tryAddNanos_true (orThrow_eq_ok h)
    rw [(tryMultiplyNanos_true (orThrow_eq_ok hday)).2,
      (tryMultiplyNanos_true (orThrow_eq_ok hmicro)).2] at hsum
    exact ⟨not_not.mp hmonths, hsum, hfits⟩

end Results

end DuckdbLoki
