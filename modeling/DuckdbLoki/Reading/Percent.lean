import Mathlib.Data.List.Basic
import Mathlib.Tactic.Common

namespace Percent

def hexValue (c : Char) : Option ℕ :=
  if c.isDigit then some (c.toNat - '0'.toNat)
  else if 'a' ≤ c ∧ c ≤ 'f' then some (c.toNat - 'a'.toNat + 10)
  else if 'A' ≤ c ∧ c ≤ 'F' then some (c.toNat - 'A'.toNat + 10)
  else none

def isUnreserved (c : Char) : Bool := c.isAlphanum || c = '-' || c = '.' || c = '_' || c = '~'

/-- Percent-decoding; `plus` is what a plus sign stands for. -/
def decode (plus : Char) : List Char → Option (List Char)
  | [] => some []
  | c :: s =>
    if c = '%' then
      match s with
      | hi :: lo :: s => do
        let h ← hexValue hi
        let l ← hexValue lo
        let rest ← decode plus s
        some (Char.ofNat (h * 16 + l) :: rest)
      | _ => none
    else (decode plus s).map ((if c = '+' then plus else c) :: ·)

/-- One `name=value`, cut at the first `=`; a plus sign is a space here. -/
def field (part : List Char) : Option (List Char × List Char) := do
  let name ← decode ' ' (part.takeWhile (· ≠ '='))
  let value ← decode ' ' ((part.dropWhile (· ≠ '=')).drop 1)
  some (name, value)

def parseQuery (query : List Char) : Option (List (List Char × List Char)) :=
  if query = [] then some [] else (query.splitOn '&').mapM field

def parsePath (path : List Char) : Option (List (List Char)) :=
  (path.splitOn '/').mapM (decode '+')

inductive Encoded (plain : Char → Bool) : List Char → Prop
  | nil : Encoded plain []
  | plain {c : Char} {s : List Char} :
      plain c = true → Encoded plain s → Encoded plain (c :: s)
  | byte {hi lo : Char} {h l : ℕ} {s : List Char} : hexValue hi = some h → hexValue lo = some l →
      Encoded plain s → Encoded plain ('%' :: hi :: lo :: s)

section Decode

variable (plus : Char) {c hi lo : Char} {h l : ℕ}

theorem decode_plain (hpercent : c ≠ '%') (hplus : c ≠ '+') (s : List Char) :
    decode plus (c :: s) = (decode plus s).map (c :: ·) := by
  rw [decode.eq_def]
  dsimp only
  rw [if_neg hpercent, if_neg hplus]

theorem decode_byte (hhi : hexValue hi = some h) (hlo : hexValue lo = some l) (s : List Char) :
    decode plus ('%' :: hi :: lo :: s) = (decode plus s).map (Char.ofNat (h * 16 + l) :: ·) := by
  rw [decode, if_pos rfl, hhi, hlo]
  cases decode plus s <;> rfl

/-- What decodes character by character decodes as a whole. -/
theorem decode_flatMap {encode : Char → List Char} {s : List Char}
    (hchar : ∀ c ∈ s, ∀ t, decode plus (encode c ++ t) = (decode plus t).map (c :: ·)) :
    decode plus (s.flatMap encode) = some s := by
  induction s with
  | nil => rfl
  | cons c s ih =>
    obtain ⟨hc, hs⟩ := List.forall_mem_cons.mp hchar
    rw [List.flatMap_cons, hc, ih hs]
    rfl

end Decode

section Encoded

variable {plain plain' : Char → Bool} {s t : List Char}

theorem Encoded.append (hs : Encoded plain s) (ht : Encoded plain t) : Encoded plain (s ++ t) := by
  induction hs with
  | nil => exact ht
  | plain hc _ ih => exact .plain hc ih
  | byte hhi hlo _ ih => exact .byte hhi hlo ih

theorem Encoded.mono (hs : Encoded plain s) (h : ∀ c, plain c = true → plain' c = true) :
    Encoded plain' s := by
  induction hs with
  | nil => exact .nil
  | plain hc _ ih => exact .plain (h _ hc) ih
  | byte hhi hlo _ ih => exact .byte hhi hlo ih

/-- A separator that is not plain is not in the text. -/
theorem Encoded.notMem {c : Char} (hs : Encoded plain s) (hplain : plain c = false)
    (hpercent : c ≠ '%') (hhex : hexValue c = none) : c ∉ s := by
  have hne : ∀ d n, hexValue d = some n → c ≠ d := by
    intro d n hd heq
    rw [← heq, hhex] at hd
    cases hd
  induction hs with
  | nil => exact List.not_mem_nil
  | @plain d s hd _ ih =>
    refine List.not_mem_cons_of_ne_of_not_mem ?_ ih
    intro heq
    rw [← heq, hplain] at hd
    cases hd
  | byte hhi hlo _ ih =>
    refine List.not_mem_cons_of_ne_of_not_mem hpercent ?_
    refine List.not_mem_cons_of_ne_of_not_mem (hne _ _ hhi) ?_
    exact List.not_mem_cons_of_ne_of_not_mem (hne _ _ hlo) ih

end Encoded

section Fields

variable {name value name' value' : List Char}

theorem field_append (hcut : '=' ∉ name') (hname : decode ' ' name' = some name)
    (hvalue : decode ' ' value' = some value) :
    field (name' ++ '=' :: value') = some (name, value) := by
  have hne : ∀ c ∈ name', decide (c ≠ '=') = true := by
    intro c hc
    apply decide_eq_true
    intro heq
    exact hcut (heq ▸ hc)
  rw [field, List.takeWhile_append_of_pos hne, List.dropWhile_append_of_pos hne,
    List.takeWhile_cons_of_neg (by simp), List.dropWhile_cons_of_neg (by simp), List.append_nil,
    List.drop_one, List.tail_cons, hname, hvalue]
  rfl

end Fields

end Percent
