import DuckdbLoki.Base
import DuckdbLoki.Regex
import Mathlib.Data.List.DropRight

namespace DuckdbLoki

inductive MatchOp
  | eq
  | neq
  | re
  | nre
deriving DecidableEq

structure LabelMatcher where
  label : Str
  op : MatchOp
  value : Str
deriving DecidableEq

inductive LineOp
  | contains
  | notContains
  | matches
  | notMatches
deriving DecidableEq

structure LineFilter where
  op : LineOp
  value : Str
deriving DecidableEq

def isTrimmed (c : Char) : Bool := c = ' ' || c = '\t' || c = '\n' || c = '\r'

def trim (s : Str) : Str := (s.dropWhile isTrimmed).rdropWhile isTrimmed

def MatchOp.text : MatchOp → Str
  | .eq => "=".toList
  | .neq => "!=".toList
  | .re => "=~".toList
  | .nre => "!~".toList

def LineOp.text : LineOp → Str
  | .contains => "|=".toList
  | .notContains => "!=".toList
  | .matches => "|~".toList
  | .notMatches => "!~".toList

def isLetter (c : Char) : Bool := 'a' ≤ c && c ≤ 'z' || 'A' ≤ c && c ≤ 'Z'

def isValidLabelName : Str → Bool
  | [] => false
  | c :: s => (isLetter c || c = '_') &&
      s.all (fun d ↦ isLetter d || '0' ≤ d && d ≤ '9' || d = '_')

def selectorPrefixBeforeBrace (selector : Str) : Str :=
  let trimmed := trim selector
  match trimmed.idxOf? '{' with
  | none => []
  | some i => trim (trimmed.take i)

def escapeLogQLChar (c : Char) : Str :=
  if c = '\\' then "\\\\".toList
  else if c = '"' then "\\\"".toList
  else if c = '\n' then "\\n".toList
  else if c = '\t' then "\\t".toList
  else if c = '\r' then "\\r".toList
  else [c]

def escapeLogQLString (value : Str) : Str := value.flatMap escapeLogQLChar

def matcherToString (m : LabelMatcher) : Str :=
  m.label ++ m.op.text ++ '"' :: escapeLogQLString m.value ++ "\"".toList

def lineFilterToString (f : LineFilter) : Str :=
  f.op.text ++ " \"".toList ++ escapeLogQLString f.value ++ "\"".toList

def regexEscapeChar (c : Char) : Str :=
  if Regex.isMeta c then ['\\', c] else [c]

def regexEscapeLiteral (s : Str) : Str := s.flatMap regexEscapeChar

def tryLikeToSubstring (pattern : Str) : Option Str :=
  if pattern.length < 3 ∨ pattern.head? ≠ some '%' ∨ pattern.getLast? ≠ some '%' then none
  else
    let middle := (pattern.drop 1).take (pattern.length - 2)
    if middle.any (fun c ↦ c = '%' || c = '_') then none else some middle

def rfind (c : Char) (s : Str) : Option ℕ :=
  (s.reverse.idxOf? c).map (fun i ↦ s.length - 1 - i)

def splitBase (trimmed : Str) : Str × Str :=
  match trimmed.idxOf? '{' with
  | none => (trimmed, [])
  | some first =>
    match rfind '}' trimmed with
    | none => (trimmed.drop (first + 1), [])
    | some last =>
      if last < first then (trimmed.drop (first + 1), [])
      else ((trimmed.drop (first + 1)).take (last - first - 1), trimmed.drop (last + 1))

/-- The body of the matcher loop: the selector so far, and whether it is still
without a matcher. -/
def appendMatcher (st : Str × Bool) (m : LabelMatcher) : Str × Bool :=
  (st.1 ++ (if st.2 then [] else ", ".toList) ++ matcherToString m, false)

def buildSelectorQuery (baseSelector : Str) (matchers : List LabelMatcher)
    (lineFilters : List LineFilter) : Str :=
  let (inner, rest) := splitBase (trim baseSelector)
  let inner := trim inner
  let start := if inner ≠ [] then ('{' :: inner, false) else (['{'], true)
  let selector := (matchers.foldl appendMatcher start).1 ++ ['}']
  let rest := trim rest
  let query := if rest ≠ [] then selector ++ ' ' :: rest else selector
  lineFilters.foldl (fun query f ↦ query ++ ' ' :: lineFilterToString f) query

section Semantics

variable (engine : Regex.Engine)

/-- Loki's test of a stream: a missing label reads as the empty string. -/
def LabelMatcher.accepts (m : LabelMatcher) (labels : StringMap) : Bool :=
  let value := (labels.find m.label).getD []
  match m.op with
  | .eq => value = m.value
  | .neq => value ≠ m.value
  | .re => engine.fullMatch m.value value
  | .nre => !engine.fullMatch m.value value

def LineFilter.accepts (f : LineFilter) (line : Str) : Bool :=
  match f.op with
  | .contains => f.value <:+: line
  | .notContains => ¬ f.value <:+: line
  | .matches => engine.partialMatch f.value line
  | .notMatches => !engine.partialMatch f.value line

end Semantics

section Escape

theorem isEscapable_of_isMeta {c : Char} (h : Regex.isMeta c = true) :
    Regex.isEscapable c = true := by
  have hall : "\\.+*?()|[]\x7b\x7d^$".toList.all Regex.isEscapable = true := by decide
  exact List.all_eq_true.mp hall c (of_decide_eq_true h)

theorem regexEscapeLiteral_spells (s : Str) : Regex.Spells (regexEscapeLiteral s) s := by
  induction s with
  | nil => exact .nil
  | cons c s ih =>
    rw [regexEscapeLiteral, List.flatMap_cons, regexEscapeChar]
    split_ifs with h
    · exact .escaped (isEscapable_of_isMeta h) ih
    · exact .plain (by simpa using h) ih

theorem regexEscapeLiteral_eq_nil {s : Str} : regexEscapeLiteral s = [] ↔ s = [] := by
  cases s with
  | nil => simp [regexEscapeLiteral]
  | cons c s =>
    simp only [regexEscapeLiteral, List.flatMap_cons, regexEscapeChar]
    split_ifs <;> simp

theorem parse_regexEscapeLiteral (s : Str) :
    Regex.parse (regexEscapeLiteral s) = some [Regex.literal s] := by
  have h := (regexEscapeLiteral_spells s).parse_append []
  rw [List.append_nil] at h
  rw [h, Regex.parse, Option.map_some, Regex.foldr_push, List.append_nil]

theorem parse_starts (s : Str) :
    Regex.parse ('^' :: regexEscapeLiteral s) = some [.textStart :: Regex.literal s] := by
  rw [Regex.parse, parse_regexEscapeLiteral, Option.map_some]
  rfl

theorem parse_ends (s : Str) :
    Regex.parse (regexEscapeLiteral s ++ ['$']) = some [Regex.literal s ++ [.textEnd]] := by
  rw [(regexEscapeLiteral_spells s).parse_append, Regex.parse, Regex.parse, Option.map_some,
    Option.map_some, Regex.push, Regex.foldr_push]

variable {engine : Regex.Engine}

theorem partialMatch_starts (he : engine.Lawful) (s line : Str) :
    engine.partialMatch ('^' :: regexEscapeLiteral s) line = true ↔ s <+: line := by
  rw [he.partial_iff _ _ _ (parse_starts s), Regex.partial_starts]

theorem partialMatch_ends (he : engine.Lawful) (s line : Str) :
    engine.partialMatch (regexEscapeLiteral s ++ ['$']) line = true ↔ s <:+ line := by
  rw [he.partial_iff _ _ _ (parse_ends s), Regex.partial_ends]

end Escape

end DuckdbLoki
