import Mathlib.Data.Int.Notation
import Mathlib.Data.List.Basic
import Mathlib.Tactic.Common

namespace DuckdbLoki

/-- A `std::string` as the sequence of its chars; a byte is the character
with the same code. -/
abbrev Str := List Char

def IsBytes (s : Str) : Prop := ∀ c ∈ s, c.toNat < 256

instance (s : Str) : Decidable (IsBytes s) := List.decidableBAll (fun c : Char ↦ c.toNat < 256) s

instance (s : Str) (l : List Str) : Decidable (s ∈ l) := List.instDecidableMemOfLawfulBEq s l

section Integers

def int64Min : ℤ := -9223372036854775808

def int64Max : ℤ := 9223372036854775807

def InInt64 (x : ℤ) : Prop := int64Min ≤ x ∧ x ≤ int64Max

instance (x : ℤ) : Decidable (InInt64 x) := inferInstanceAs (Decidable (_ ∧ _))

/-- The result of a signed 64-bit operation: overflow is undefined in C++,
and has no result here. -/
def checked (x : ℤ) : Option ℤ := if InInt64 x then some x else none

theorem checked_of_inInt64 {x : ℤ} (h : InInt64 x) : checked x = some x := if_pos h

theorem checked_eq_some {x y : ℤ} : checked x = some y ↔ InInt64 x ∧ x = y := by
  simp [checked]

end Integers

section Decimal

def toDecimal : ℤ → Str
  | .ofNat n => Nat.toDigits 10 n
  | .negSucc n => '-' :: Nat.toDigits 10 (n + 1)

def readDigits (s : Str) : Option ℕ :=
  if s ≠ [] ∧ s.all Char.isDigit then some (Nat.ofDigitChars 10 s 0) else none

def readDecimal : Str → Option ℤ
  | '-' :: s => (readDigits s).map (fun n : ℕ ↦ -(n : ℤ))
  | s => (readDigits s).map (fun n : ℕ ↦ (n : ℤ))

theorem digits_isDigit {n : ℕ} {c : Char} (h : c ∈ Nat.toDigits 10 n) : c.isDigit :=
  Nat.isDigit_of_mem_toDigits (by decide) (by decide) h

theorem ne_of_isDigit {c d : Char} (h : c.isDigit = true) (hd : d.isDigit = false) : c ≠ d := by
  intro heq
  rw [heq, hd] at h
  cases h

theorem readDigits_toDigits (n : ℕ) : readDigits (Nat.toDigits 10 n) = some n := by
  have hd : (Nat.toDigits 10 n).all Char.isDigit = true := by
    rw [List.all_eq_true]
    exact fun c hc ↦ digits_isDigit hc
  rw [readDigits, if_pos ⟨Nat.toDigits_ne_nil, hd⟩, Nat.ofDigitChars_ten_toDigits]

theorem readDigits_eq_some {s : Str} {k : ℕ} : readDigits s = some k ↔
    s ≠ [] ∧ (∀ c ∈ s, c.isDigit = true) ∧ Nat.ofDigitChars 10 s 0 = k := by
  unfold readDigits
  split_ifs with h
  · rw [Option.some_inj]
    exact ⟨fun hk ↦ ⟨h.1, List.all_eq_true.mp h.2, hk⟩, fun hk ↦ hk.2.2⟩
  · apply iff_of_false nofun
    intro hk
    exact h ⟨hk.1, List.all_eq_true.mpr hk.2.1⟩

theorem toDigits_head_ne_minus (n : ℕ) (s : Str) : Nat.toDigits 10 n ≠ '-' :: s := by
  intro h
  have hd : '-'.isDigit := digits_isDigit (n := n) (by rw [h]; exact List.mem_cons_self)
  exact absurd hd (by decide)

theorem readDecimal_toDecimal (x : ℤ) : readDecimal (toDecimal x) = some x := by
  cases x with
  | ofNat n =>
    have hne := toDigits_head_ne_minus n
    have hd := readDigits_toDigits n
    simp only [toDecimal]
    revert hne hd
    cases Nat.toDigits 10 n with
    | nil => simp [readDecimal, readDigits]
    | cons c s =>
      intro hne hd
      have hc : c ≠ '-' := fun h ↦ hne s (h ▸ rfl)
      simp [readDecimal, hd]
  | negSucc n =>
    simp only [toDecimal, readDecimal, readDigits_toDigits, Int.negSucc_eq]
    simp

theorem toDecimal_injective {x y : ℤ} (h : toDecimal x = toDecimal y) : x = y := by
  have hx := readDecimal_toDecimal x
  rw [h, readDecimal_toDecimal y] at hx
  exact (Option.some.inj hx).symm

theorem mem_toDecimal {x : ℤ} {c : Char} (h : c ∈ toDecimal x) : c = '-' ∨ c.isDigit := by
  cases x with
  | ofNat n => exact Or.inr (digits_isDigit h)
  | negSucc n =>
    rcases List.mem_cons.mp h with rfl | h
    · exact Or.inl rfl
    · exact Or.inr (digits_isDigit h)

end Decimal

/-- A `std::map<std::string, std::string>`: its pairs in key order, so that
equal maps are iterated alike. -/
structure StringMap where
  pairs : List (Str × Str)
  sorted : pairs.Pairwise (fun a b ↦ a.1 < b.1)
deriving DecidableEq

namespace StringMap

def empty : StringMap := ⟨[], .nil⟩

def find (m : StringMap) (k : Str) : Option Str := m.pairs.lookup k

theorem eq_of_pairs {m m' : StringMap} (h : m.pairs = m'.pairs) : m = m' := by
  obtain ⟨pairs, _⟩ := m
  obtain ⟨pairs', _⟩ := m'
  subst h
  rfl

end StringMap

end DuckdbLoki
