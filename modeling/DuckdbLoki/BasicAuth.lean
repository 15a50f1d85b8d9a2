import DuckdbLoki.Auth
import DuckdbLoki.Reading.Base64
import Mathlib.Algebra.Group.Nat.Defs

namespace DuckdbLoki

section Shifts

def sextet (triple shift : ℕ) : Char := base64Alphabet.getD (triple >>> shift &&& 0x3F) '='

/-- The loop of the source, and its two remainders. -/
def base64Loop : Str → Str
  | a :: b :: c :: s =>
    let triple := byteOf a <<< 16 ||| byteOf b <<< 8 ||| byteOf c
    sextet triple 18 :: sextet triple 12 :: sextet triple 6 :: sextet triple 0 :: base64Loop s
  | [a] =>
    let triple := byteOf a <<< 16
    [sextet triple 18, sextet triple 12, '=', '=']
  | [a, b] =>
    let triple := byteOf a <<< 16 ||| byteOf b <<< 8
    [sextet triple 18, sextet triple 12, sextet triple 6, '=']
  | [] => []

theorem byteOf_lt (c : Char) : byteOf c < 256 := Nat.mod_lt _ (by decide)

theorem sextet_eq (triple shift : ℕ) : sextet triple shift = base64Char (triple / 2 ^ shift) := by
  have hmask : triple >>> shift &&& 0x3F = triple / 2 ^ shift % 64 := by
    rw [Nat.shiftRight_eq_div_pow]
    exact Nat.and_two_pow_sub_one_eq_mod _ 6
  rw [sextet, hmask]
  rfl

theorem shifted_pair (a b : Char) :
    byteOf a <<< 16 ||| byteOf b <<< 8 = byteOf a * 65536 + byteOf b * 256 := by
  have hb := byteOf_lt b
  rw [← Nat.shiftLeft_add_eq_or_of_lt (by rw [Nat.shiftLeft_eq]; omega), Nat.shiftLeft_eq,
    Nat.shiftLeft_eq]

theorem shifted_triple (a b c : Char) : byteOf a <<< 16 ||| byteOf b <<< 8 ||| byteOf c =
    byteOf a * 65536 + byteOf b * 256 + byteOf c := by
  have hc : byteOf c < 2 ^ 8 := byteOf_lt c
  have hpair : byteOf a * 65536 + byteOf b * 256 = (byteOf a * 256 + byteOf b) <<< 8 := by
    rw [Nat.shiftLeft_eq]
    omega
  rw [shifted_pair, hpair, Nat.shiftLeft_add_eq_or_of_lt hc]

/-- The source's shifts and masks compute what the quotients say. -/
theorem base64Encode_eq_loop (s : Str) : base64Encode s = base64Loop s := by
  induction s using base64Loop.induct with
  | case1 a b c s ih =>
    rw [base64Loop, base64Encode, ih, shifted_triple]
    simp only [sextet_eq, Nat.reducePow, Nat.div_one]
  | case2 a =>
    rw [base64Loop, base64Encode, Nat.shiftLeft_eq]
    simp only [sextet_eq, Nat.reducePow]
  | case3 a b =>
    rw [base64Loop, base64Encode, shifted_pair]
    simp only [sextet_eq, Nat.reducePow]
  | case4 => rfl

end Shifts

section Decoding

theorem charValue_base64Char (n : ℕ) : Base64.charValue (base64Char n) = some (n % 64) := by
  have hall : ∀ k < 64, Base64.charValue (base64Alphabet.getD k '=') = some k := by
    decide +kernel
  exact hall _ (Nat.mod_lt _ (by decide))

theorem ofNat_byteOf {c : Char} (h : c.toNat < 256) : Char.ofNat (byteOf c) = c := by
  rw [byteOf, Nat.mod_eq_of_lt h, Char.ofNat_toNat]

theorem triple_bytes {x y z : ℕ} (hx : x < 256) (hy : y < 256) (hz : z < 256) :
    (x * 65536 + y * 256 + z) / 262144 % 64 * 4 + (x * 65536 + y * 256 + z) / 4096 % 64 / 16 = x ∧
    (x * 65536 + y * 256 + z) / 4096 % 64 % 16 * 16 + (x * 65536 + y * 256 + z) / 64 % 64 / 4 = y ∧
    (x * 65536 + y * 256 + z) / 64 % 64 % 4 * 64 + (x * 65536 + y * 256 + z) % 64 = z := by
  omega

theorem base64Encode_decode {s : Str} (hs : IsBytes s) :
    Base64.decode (base64Encode s) = some s := by
  induction s using base64Encode.induct with
  | case1 a b c s ih =>
    obtain ⟨ha, hs⟩ := List.forall_mem_cons.mp hs
    obtain ⟨hb, hs⟩ := List.forall_mem_cons.mp hs
    obtain ⟨hc, hs⟩ := List.forall_mem_cons.mp hs
    obtain ⟨hx, hy, hz⟩ := triple_bytes (byteOf_lt a) (byteOf_lt b) (byteOf_lt c)
    rw [base64Encode, Base64.decode_three (charValue_base64Char _) (charValue_base64Char _)
      (charValue_base64Char _) (charValue_base64Char _), ih hs, Option.map_some, hx, hy, hz,
      ofNat_byteOf ha, ofNat_byteOf hb, ofNat_byteOf hc]
  | case2 a =>
    obtain ⟨ha, _⟩ := List.forall_mem_cons.mp hs
    obtain ⟨hx, _⟩ := triple_bytes (byteOf_lt a) (show 0 < 256 by decide) (show 0 < 256 by decide)
    rw [Nat.zero_mul, Nat.add_zero] at hx
    rw [base64Encode, Base64.decode_one (charValue_base64Char _) (charValue_base64Char _) (by omega),
      hx, ofNat_byteOf ha]
  | case3 a b =>
    obtain ⟨ha, hs⟩ := List.forall_mem_cons.mp hs
    obtain ⟨hb, _⟩ := List.forall_mem_cons.mp hs
    obtain ⟨hx, hy, _⟩ := triple_bytes (byteOf_lt a) (byteOf_lt b) (show 0 < 256 by decide)
    rw [Nat.add_zero] at hx hy
    rw [base64Encode, Base64.decode_two (charValue_base64Char _) (charValue_base64Char _)
      (charValue_base64Char _) (by omega), hx, hy, ofNat_byteOf ha, ofNat_byteOf hb]
  | case4 => rfl

theorem length_base64Encode (s : Str) : (base64Encode s).length = 4 * ((s.length + 2) / 3) := by
  induction s using base64Encode.induct with
  | case1 a b c s ih =>
    simp only [base64Encode, List.length_cons, ih]
    omega
  | case2 a => simp [base64Encode]
  | case3 a b => simp [base64Encode]
  | case4 => rfl

theorem base64Encode_shape (s : Str) : ∃ body, (∀ c ∈ body, (Base64.charValue c).isSome = true) ∧
    base64Encode s = body ++ List.replicate ((3 - s.length % 3) % 3) '=' := by
  have hchar : ∀ n, (Base64.charValue (base64Char n)).isSome = true := by
    intro n
    rw [charValue_base64Char]
    rfl
  induction s using base64Encode.induct with
  | case1 a b c s ih =>
    obtain ⟨body, hbody, heq⟩ := ih
    have hlen : (a :: b :: c :: s).length % 3 = s.length % 3 := Nat.add_mod_right _ 3
    let triple := byteOf a * 65536 + byteOf b * 256 + byteOf c
    refine ⟨base64Char (triple / 262144) :: base64Char (triple / 4096) ::
      base64Char (triple / 64) :: base64Char triple :: body, ?_, ?_⟩
    · simp only [List.forall_mem_cons]
      exact ⟨hchar _, hchar _, hchar _, hchar _, hbody⟩
    · rw [base64Encode, heq, hlen]
      rfl
  | case2 a =>
    let triple := byteOf a * 65536
    refine ⟨[base64Char (triple / 262144), base64Char (triple / 4096)], ?_, ?_⟩
    · simp only [List.forall_mem_cons]
      exact ⟨hchar _, hchar _, nofun⟩
    · rw [base64Encode]
      rfl
  | case3 a b =>
    let triple := byteOf a * 65536 + byteOf b * 256
    refine ⟨[base64Char (triple / 262144), base64Char (triple / 4096), base64Char (triple / 64)],
      ?_, ?_⟩
    · simp only [List.forall_mem_cons]
      exact ⟨hchar _, hchar _, hchar _, nofun⟩
    · rw [base64Encode]
      rfl
  | case4 => exact ⟨[], nofun, rfl⟩

/-- The output is Base64 as the standard has it, so no two byte strings share
one. -/
theorem base64Encode_standard {s : Str} (hs : IsBytes s) :
    (base64Encode s).length = 4 * ((s.length + 2) / 3) ∧
    (∃ body, (∀ c ∈ body, (Base64.charValue c).isSome = true) ∧
      base64Encode s = body ++ List.replicate ((3 - s.length % 3) % 3) '=') ∧
    Base64.decode (base64Encode s) = some s ∧
    ∀ t, IsBytes t → base64Encode s = base64Encode t → s = t := by
  refine ⟨length_base64Encode s, base64Encode_shape s, base64Encode_decode hs, ?_⟩
  intro t ht h
  have hdecode := base64Encode_decode hs
  rw [h, base64Encode_decode ht] at hdecode
  exact (Option.some.inj hdecode).symm

theorem base64Encode_standard_user :
    (base64Encode "user:pass".toList).length = 4 * (("user:pass".toList.length + 2) / 3) ∧
    (∃ body, (∀ c ∈ body, (Base64.charValue c).isSome = true) ∧
      base64Encode "user:pass".toList =
        body ++ List.replicate ((3 - "user:pass".toList.length % 3) % 3) '=') ∧
    Base64.decode (base64Encode "user:pass".toList) = some "user:pass".toList ∧
    ∀ t, IsBytes t → base64Encode "user:pass".toList = base64Encode t → "user:pass".toList = t :=
  base64Encode_standard (by decide)

example : base64Encode "fooba".toList = "Zm9vYmE=".toList := by decide

end Decoding

end DuckdbLoki
