import Mathlib.Data.List.Basic
import Mathlib.Tactic.Common

namespace Base64

def charValue (c : Char) : Option ℕ :=
  if c.isUpper then some (c.toNat - 'A'.toNat)
  else if c.isLower then some (c.toNat - 'a'.toNat + 26)
  else if c.isDigit then some (c.toNat - '0'.toNat + 52)
  else if c = '+' then some 62
  else if c = '/' then some 63
  else none

def decodeOne (a b : Char) : Option (List Char) := do
  let x ← charValue a
  let y ← charValue b
  if y % 16 = 0 then some [Char.ofNat (x * 4 + y / 16)] else none

def decodeTwo (a b c : Char) : Option (List Char) := do
  let x ← charValue a
  let y ← charValue b
  let z ← charValue c
  if z % 4 = 0 then some [Char.ofNat (x * 4 + y / 16), Char.ofNat (y % 16 * 16 + z / 4)] else none

def decodeThree (a b c d : Char) : Option (List Char) := do
  let x ← charValue a
  let y ← charValue b
  let z ← charValue c
  let w ← charValue d
  some [Char.ofNat (x * 4 + y / 16), Char.ofNat (y % 16 * 16 + z / 4), Char.ofNat (z % 4 * 64 + w)]

def decode : List Char → Option (List Char)
  | [] => some []
  | a :: b :: c :: d :: s =>
    if d = '=' then
      if s ≠ [] then none
      else if c = '=' then decodeOne a b
      else decodeTwo a b c
    else (decodeThree a b c d).bind (fun bytes ↦ (decode s).map (bytes ++ ·))
  | _ => none

section Groups

variable {a b c d : Char} {x y z w : ℕ}

theorem ne_padding (h : charValue c = some z) : c ≠ '=' := by
  rintro rfl
  cases h

theorem decode_one (ha : charValue a = some x) (hb : charValue b = some y) (h : y % 16 = 0) :
    decode [a, b, '=', '='] = some [Char.ofNat (x * 4 + y / 16)] := by
  change decodeOne a b = _
  simp only [decodeOne, ha, hb, Option.bind_eq_bind, Option.bind_some, if_pos h]

theorem decode_two (ha : charValue a = some x) (hb : charValue b = some y)
    (hc : charValue c = some z) (h : z % 4 = 0) : decode [a, b, c, '='] =
      some [Char.ofNat (x * 4 + y / 16), Char.ofNat (y % 16 * 16 + z / 4)] := by
  rw [decode, if_pos rfl, if_neg (not_not.mpr rfl), if_neg (ne_padding hc)]
  simp only [decodeTwo, ha, hb, hc, Option.bind_eq_bind, Option.bind_some, if_pos h]

theorem decode_three (ha : charValue a = some x) (hb : charValue b = some y)
    (hc : charValue c = some z) (hd : charValue d = some w) (s : List Char) :
    decode (a :: b :: c :: d :: s) = (decode s).map (fun rest ↦ Char.ofNat (x * 4 + y / 16) ::
      Char.ofNat (y % 16 * 16 + z / 4) :: Char.ofNat (z % 4 * 64 + w) :: rest) := by
  rw [decode, if_neg (ne_padding hd)]
  simp only [decodeThree, ha, hb, hc, hd, Option.bind_eq_bind, Option.bind_some]
  rfl

end Groups

end Base64
