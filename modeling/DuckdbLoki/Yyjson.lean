import DuckdbLoki.Assoc.Emplace
import DuckdbLoki.Base
import Mathlib.Data.List.Lex
import Mathlib.Data.Char
import Mathlib.Data.List.TakeWhile

namespace DuckdbLoki

/-- A JSON document as yyjson reads it; a string is its decoded bytes. -/
inductive Json
  | null
  | bool (b : Bool)
  | number (text : Str)
  | string (s : Str)
  | array (elems : List Json)
  | object (members : List (Str × Json))

section Accessors

/-- A `std::string` made of the pointer to a string: it ends at the first NUL. -/
def cString (s : Str) : Str := s.takeWhile (· ≠ '\x00')

namespace Json

def getStr : Json → Option Str
  | .string s => some (cString s)
  | _ => none

def arrElems : Json → List Json
  | .array elems => elems
  | _ => []

def arrGet (v : Json) (i : ℕ) : Option Json := v.arrElems[i]?

def objMembers : Json → List (Str × Json)
  | .object members => members
  | _ => []

def objGet (v : Json) (key : Str) : Option Json := v.objMembers.lookup key

end Json

/-- `std::map::emplace`: a key that is already there keeps its value. -/
def StringMap.emplace (m : StringMap) (k v : Str) : StringMap :=
  ⟨Assoc.emplace k v m.pairs, Assoc.Sorted.emplace m.sorted k v⟩

def emplaceMember (m : StringMap) (member : Str × Json) : StringMap :=
  match member.2.getStr with
  | some v => m.emplace (cString member.1) v
  | none => m

def stringMembers (v : Option Json) : StringMap :=
  ((v.map Json.objMembers).getD []).foldl emplaceMember .empty

def isCSpace (c : Char) : Bool :=
  c = ' ' || c = '\t' || c = '\n' || c = '\x0b' || c = '\x0c' || c = '\r'

def signedDigits : Str → Bool × Str
  | '-' :: s => (true, s.takeWhile Char.isDigit)
  | '+' :: s => (false, s.takeWhile Char.isDigit)
  | s => (false, s.takeWhile Char.isDigit)

/-- `std::stoll`: leading spaces, a sign, and the digits up to anything else. It
throws where there are no digits or the number does not fit. -/
def stoll (s : Str) : Option ℤ :=
  let (negative, digits) := signedDigits (s.dropWhile isCSpace)
  if digits = [] then none
  else
    let n : ℤ := Nat.ofDigitChars 10 digits 0
    checked (if negative then -n else n)

end Accessors

section Strings

theorem cString_of_notMem {s : Str} (h : '\x00' ∉ s) : cString s = s := by
  apply List.takeWhile_eq_self_iff.mpr
  intro c hc
  apply decide_eq_true
  intro hzero
  exact h (hzero ▸ hc)

theorem notMem_cString (s : Str) : '\x00' ∉ cString s := by
  intro h
  have hne := List.mem_takeWhile_imp h
  exact absurd rfl (of_decide_eq_true hne)

theorem notMem_getStr {v : Json} {s : Str} (h : v.getStr = some s) : '\x00' ∉ s := by
  cases v with
  | string t =>
    rw [← Option.some.inj h]
    exact notMem_cString t
  | _ => cases h

theorem takeWhile_digits (n : ℕ) :
    (Nat.toDigits 10 n).takeWhile Char.isDigit = Nat.toDigits 10 n :=
  List.takeWhile_eq_self_iff.mpr (fun _ hc ↦ digits_isDigit hc)

theorem isCSpace_of_isDigit {c : Char} (h : c.isDigit = true) : isCSpace c = false := by
  rw [← Bool.not_eq_true]
  intro hspace
  simp only [isCSpace, Bool.or_eq_true, decide_eq_true_eq] at hspace
  rcases hspace with ((((hc | hc) | hc) | hc) | hc) | hc
  all_goals exact ne_of_isDigit h (by decide) hc

theorem toDigits_cons (n : ℕ) : ∃ c s, Nat.toDigits 10 n = c :: s ∧ c.isDigit = true := by
  obtain ⟨c, s, h⟩ := List.exists_cons_of_ne_nil (Nat.toDigits_ne_nil (b := 10) (n := n))
  exact ⟨c, s, h, digits_isDigit (n := n) (h ▸ List.mem_cons_self)⟩

theorem dropWhile_toDecimal (x : ℤ) : (toDecimal x).dropWhile isCSpace = toDecimal x := by
  cases x with
  | ofNat n =>
    obtain ⟨c, s, h, hc⟩ := toDigits_cons n
    rw [toDecimal, h]
    apply List.dropWhile_cons_of_neg
    rw [isCSpace_of_isDigit hc]
    exact Bool.false_ne_true
  | negSucc n => exact List.dropWhile_cons_of_neg (by decide)

theorem signedDigits_of_isDigit {c : Char} {s : Str} (h : c.isDigit = true) :
    signedDigits (c :: s) = (false, (c :: s).takeWhile Char.isDigit) := by
  unfold signedDigits
  split
  · rename_i heq
    rw [(List.cons.inj heq).1] at h
    exact absurd h (by decide)
  · rename_i heq
    rw [(List.cons.inj heq).1] at h
    exact absurd h (by decide)
  · rfl

theorem stoll_toDecimal {x : ℤ} (h : InInt64 x) : stoll (toDecimal x) = some x := by
  unfold stoll
  rw [dropWhile_toDecimal]
  cases x with
  | ofNat n =>
    obtain ⟨c, s, hdigits, hc⟩ := toDigits_cons n
    have hsigned : signedDigits (toDecimal (.ofNat n)) = (false, Nat.toDigits 10 n) := by
      rw [toDecimal, hdigits, signedDigits_of_isDigit hc, ← hdigits, takeWhile_digits]
    rw [hsigned]
    dsimp only
    rw [if_neg Nat.toDigits_ne_nil, Nat.ofDigitChars_ten_toDigits, if_neg Bool.false_ne_true]
    exact checked_of_inInt64 h
  | negSucc n =>
    have hsigned : signedDigits (toDecimal (.negSucc n)) = (true, Nat.toDigits 10 (n + 1)) := by
      rw [toDecimal, signedDigits, takeWhile_digits]
    rw [hsigned]
    dsimp only
    rw [if_neg Nat.toDigits_ne_nil, Nat.ofDigitChars_ten_toDigits, if_pos rfl]
    exact checked_of_inInt64 h

theorem notMem_toDecimal (x : ℤ) : '\x00' ∉ toDecimal x := by
  intro h
  rcases mem_toDecimal h with h | h
  · exact absurd h (by decide)
  · exact absurd h (by decide)

end Strings

section Members

def stringObject (ps : List (Str × Str)) : Json := .object (ps.map (fun p ↦ (p.1, .string p.2)))

theorem foldl_emplaceMember_pairs (ps : List (Str × Str)) (m : StringMap) :
    ((ps.map (fun p ↦ (p.1, Json.string p.2))).foldl emplaceMember m).pairs =
      Assoc.collectFrom m.pairs (ps.map (fun p ↦ (cString p.1, cString p.2))) := by
  induction ps generalizing m with
  | nil => rfl
  | cons p ps ih => exact ih (m.emplace (cString p.1) (cString p.2))

def StringMap.NulFree (m : StringMap) : Prop := ∀ p ∈ m.pairs, '\x00' ∉ p.1 ∧ '\x00' ∉ p.2

instance (m : StringMap) : Decidable m.NulFree := inferInstanceAs (Decidable (∀ p ∈ m.pairs, _))

theorem StringMap.NulFree.emplaceMember {m : StringMap} (h : m.NulFree) (member : Str × Json) :
    (emplaceMember m member).NulFree := by
  unfold DuckdbLoki.emplaceMember
  cases hv : member.2 with
  | string t =>
    intro p hp
    rcases Assoc.mem_emplace hp with hp | hp
    · rw [hp]
      exact ⟨notMem_cString _, notMem_cString _⟩
    · exact h p hp
  | _ => exact h

theorem StringMap.NulFree.foldl {m : StringMap} (h : m.NulFree) (members : List (Str × Json)) :
    (members.foldl DuckdbLoki.emplaceMember m).NulFree := by
  induction members generalizing m with
  | nil => exact h
  | cons member members ih => exact ih (h.emplaceMember member)

theorem stringMembers_nulFree (v : Option Json) : (stringMembers v).NulFree := by
  apply StringMap.NulFree.foldl
  intro p hp
  exact absurd hp List.not_mem_nil

theorem stringMembers_of_perm {m : StringMap} (hm : m.NulFree) {ps : List (Str × Str)}
    (hp : ps.Perm m.pairs) : stringMembers (some (stringObject ps)) = m := by
  apply StringMap.eq_of_pairs
  have hread : ps.map (fun p ↦ (cString p.1, cString p.2)) = ps := by
    apply (List.map_congr_left _).trans (List.map_id ps)
    intro p hmem
    obtain ⟨hk, hv⟩ := hm p (hp.mem_iff.mp hmem)
    rw [cString_of_notMem hk, cString_of_notMem hv]
    rfl
  calc
    (stringMembers (some (stringObject ps))).pairs =
        Assoc.collectFrom [] (ps.map (fun p ↦ (cString p.1, cString p.2))) :=
      foldl_emplaceMember_pairs ps .empty
    _ = Assoc.collectFrom [] ps := by rw [hread]
    _ = m.pairs := Assoc.Sorted.collect_of_perm m.sorted hp

end Members

end DuckdbLoki
