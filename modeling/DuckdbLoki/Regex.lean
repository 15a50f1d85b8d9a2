import Mathlib.Data.List.Infix
import Mathlib.Tactic.Common

namespace Regex

inductive Atom
  | char (c : Char)
  | textStart
  | textEnd
deriving DecidableEq

/-- A pattern is an alternation of branches, a branch a concatenation. -/
abbrev Branch := List Atom

abbrev Pattern := List Branch

def Branch.Spans : Branch → List Char → List Char → List Char → Prop
  | [], _, mid, _ => mid = []
  | .char c :: b, pre, mid, post => ∃ rest, mid = c :: rest ∧ Spans b (pre ++ [c]) rest post
  | .textStart :: b, pre, mid, post => pre = [] ∧ Spans b pre mid post
  | .textEnd :: b, pre, mid, post => (mid = [] ∧ post = []) ∧ Spans b pre mid post

def Pattern.Full (p : Pattern) (s : List Char) : Prop := ∃ b ∈ p, Branch.Spans b [] s []

def Pattern.Partial (p : Pattern) (s : List Char) : Prop :=
  ∃ b ∈ p, ∃ pre mid post, s = pre ++ mid ++ post ∧ Branch.Spans b pre mid post

section Syntax

def isMeta (c : Char) : Bool := c ∈ "\\.+*?()|[]\x7b\x7d^$".toList

def isEscapable (c : Char) : Bool := c.toNat < 128 && !c.isAlphanum && c ≠ '_'

def push (a : Atom) : Pattern → Pattern
  | [] => [[a]]
  | b :: bs => (a :: b) :: bs

/-- Read a pattern; there is none where the text leaves this part of the
syntax. -/
def parse : List Char → Option Pattern
  | [] => some [[]]
  | '|' :: s => (parse s).map ([] :: ·)
  | '^' :: s => (parse s).map (push .textStart)
  | '$' :: s => (parse s).map (push .textEnd)
  | ['\\'] => none
  | '\\' :: c :: s => if isEscapable c then (parse s).map (push (.char c)) else none
  | c :: s => if isMeta c then none else (parse s).map (push (.char c))

/-- `q` spells the literal text `s`: an ordinary character stands for itself, any
character that allows it may follow a backslash. -/
inductive Spells : List Char → List Char → Prop
  | nil : Spells [] []
  | plain {c : Char} {q s : List Char} : isMeta c = false → Spells q s → Spells (c :: q) (c :: s)
  | escaped {c : Char} {q s : List Char} :
      isEscapable c = true → Spells q s → Spells ('\\' :: c :: q) (c :: s)

def literal (s : List Char) : Branch := s.map .char

theorem parse_plain {c : Char} (h : isMeta c = false) (s : List Char) :
    parse (c :: s) = (parse s).map (push (.char c)) := by
  have hne : ∀ d, isMeta d = true → c ≠ d := fun d hd hcd ↦ by
    rw [hcd, hd] at h
    cases h
  have h₁ := hne '|' (by decide)
  have h₂ := hne '^' (by decide)
  have h₃ := hne '$' (by decide)
  have h₄ := hne '\\' (by decide)
  rw [parse]
  · simp only [h, Bool.false_eq_true, if_false]
  all_goals simp_all

/-- A spelled literal goes in front of the first branch of what follows. -/
theorem Spells.parse_append {q s : List Char} (h : Spells q s) (t : List Char) :
    parse (q ++ t) = (parse t).map (fun p ↦ s.foldr (fun c p ↦ push (.char c) p) p) := by
  induction h with
  | nil => simp
  | plain hc h ih =>
    rw [List.cons_append, parse_plain hc, ih, Option.map_map]
    rfl
  | escaped hc h ih =>
    rw [List.cons_append, List.cons_append, parse, if_pos hc, ih, Option.map_map]
    rfl

theorem foldr_push (s : List Char) (b : Branch) (bs : Pattern) :
    s.foldr (fun c p ↦ push (.char c) p) (b :: bs) = (literal s ++ b) :: bs := by
  induction s with
  | nil => rfl
  | cons c s ih => rw [List.foldr_cons, ih]; rfl

end Syntax

section Literal

theorem spans_literal_append {s pre mid post : List Char} {b : Branch} :
    Branch.Spans (literal s ++ b) pre mid post ↔
      ∃ rest, mid = s ++ rest ∧ Branch.Spans b (pre ++ s) rest post := by
  induction s generalizing pre mid with
  | nil => simp [literal]
  | cons c s ih =>
    change (∃ rest, mid = c :: rest ∧ Branch.Spans (literal s ++ b) (pre ++ [c]) rest post) ↔ _
    simp only [ih, List.append_assoc, List.singleton_append]
    constructor
    · rintro ⟨_, rfl, rest, rfl, h⟩
      exact ⟨rest, rfl, h⟩
    · rintro ⟨rest, rfl, h⟩
      exact ⟨s ++ rest, rfl, rest, rfl, h⟩

theorem spans_literal {s pre mid post : List Char} :
    Branch.Spans (literal s) pre mid post ↔ mid = s := by
  rw [← List.append_nil (literal s), spans_literal_append]
  constructor
  · rintro ⟨rest, rfl, hrest⟩
    rw [show rest = [] from hrest, List.append_nil]
  · rintro rfl
    exact ⟨[], (List.append_nil _).symm, rfl⟩

theorem full_literals {ss : List (List Char)} {t : List Char} :
    Pattern.Full (ss.map literal) t ↔ t ∈ ss := by
  simp only [Pattern.Full, List.mem_map]
  constructor
  · rintro ⟨_, ⟨s, hs, rfl⟩, h⟩
    rw [spans_literal.mp h]
    exact hs
  · intro ht
    exact ⟨_, ⟨t, ht, rfl⟩, spans_literal.mpr rfl⟩

theorem partial_starts {s t : List Char} :
    Pattern.Partial [.textStart :: literal s] t ↔ s <+: t := by
  simp only [Pattern.Partial, List.mem_singleton, exists_eq_left]
  constructor
  · rintro ⟨pre, mid, post, rfl, rfl, h⟩
    rw [spans_literal.mp h]
    exact ⟨post, rfl⟩
  · rintro ⟨post, rfl⟩
    exact ⟨[], s, post, rfl, rfl, spans_literal.mpr rfl⟩

theorem partial_ends {s t : List Char} :
    Pattern.Partial [literal s ++ [.textEnd]] t ↔ s <:+ t := by
  simp only [Pattern.Partial, List.mem_singleton, exists_eq_left]
  constructor
  · rintro ⟨pre, mid, post, rfl, h⟩
    obtain ⟨rest, rfl, ⟨rfl, rfl⟩, _⟩ := spans_literal_append.mp h
    exact ⟨pre, by simp⟩
  · rintro ⟨pre, rfl⟩
    exact ⟨pre, s, [], by simp, spans_literal_append.mpr ⟨[], by simp, ⟨rfl, rfl⟩, rfl⟩⟩

end Literal

section Matching

def Branch.rest : Branch → Bool → List Char → Option (List Char)
  | [], _, t => some t
  | .char c :: b, _, d :: t => if c = d then rest b false t else none
  | .char _ :: _, _, [] => none
  | .textStart :: b, atStart, t => if atStart then rest b atStart t else none
  | .textEnd :: b, atStart, t => if t = [] then rest b atStart t else none

theorem Branch.rest_eq_some {b : Branch} {pre text post : List Char} :
    b.rest pre.isEmpty text = some post ↔ ∃ mid, text = mid ++ post ∧ b.Spans pre mid post := by
  induction b generalizing pre text with
  | nil => simp [rest, Spans]
  | cons a b ih =>
    cases a with
    | char c =>
      cases text with
      | nil => simp [rest, Spans]
      | cons d text =>
        have hpre : (pre ++ [c]).isEmpty = false := by simp
        rw [rest]
        split_ifs with h
        · rw [← hpre, ih]
          constructor
          · rintro ⟨mid, rfl, hm⟩
            exact ⟨c :: mid, by rw [h]; rfl, mid, rfl, hm⟩
          · rintro ⟨_, ht, mid, rfl, hm⟩
            exact ⟨mid, (List.cons.inj ht).2, hm⟩
        · refine ⟨(nomatch ·), ?_⟩
          rintro ⟨_, ht, mid, rfl, _⟩
          exact absurd (List.cons.inj ht).1.symm h
    | textStart =>
      rw [rest]
      split_ifs with h
      · rw [ih]
        simp only [Spans, List.isEmpty_iff.mp h, true_and]
      · refine ⟨(nomatch ·), ?_⟩
        rintro ⟨mid, _, rfl, _⟩
        exact absurd rfl h
    | textEnd =>
      rw [rest]
      split_ifs with h
      · rw [ih]
        constructor
        · rintro ⟨mid, ht, hm⟩
          exact ⟨mid, ht, List.append_eq_nil_iff.mp (ht ▸ h), hm⟩
        · rintro ⟨mid, ht, _, hm⟩
          exact ⟨mid, ht, hm⟩
      · refine ⟨(nomatch ·), ?_⟩
        rintro ⟨mid, ht, ⟨rfl, rfl⟩, _⟩
        exact absurd ht h

instance (p : Pattern) (s : List Char) : Decidable (p.Full s) :=
  decidable_of_iff (∃ b ∈ p, b.rest true s = some []) (by
    refine exists_congr (fun b ↦ and_congr_right (fun _ ↦ ?_))
    rw [show true = ([] : List Char).isEmpty from rfl, Branch.rest_eq_some]
    constructor
    · rintro ⟨mid, rfl, h⟩
      rwa [List.append_nil]
    · exact fun h ↦ ⟨s, (List.append_nil s).symm, h⟩)

instance (p : Pattern) (s : List Char) : Decidable (p.Partial s) :=
  decidable_of_iff
    (∃ b ∈ p, ∃ t ∈ s.tails, (b.rest (decide (t.length = s.length)) t).isSome = true) (by
    refine exists_congr (fun b ↦ and_congr_right (fun _ ↦ ?_))
    have hstart : ∀ pre t : List Char,
        decide (t.length = (pre ++ t).length) = pre.isEmpty := by
      intro pre t
      cases pre with
      | nil => simp
      | cons c pre =>
        simp only [List.length_append, List.length_cons, List.isEmpty_cons, decide_eq_false_iff_not]
        omega
    constructor
    · rintro ⟨t, ht, h⟩
      obtain ⟨pre, rfl⟩ := (List.mem_tails _ _).mp ht
      obtain ⟨post, hpost⟩ := Option.isSome_iff_exists.mp h
      rw [hstart, Branch.rest_eq_some] at hpost
      obtain ⟨mid, rfl, hm⟩ := hpost
      exact ⟨pre, mid, post, (List.append_assoc ..).symm, hm⟩
    · rintro ⟨pre, mid, post, rfl, hm⟩
      refine ⟨mid ++ post, (List.mem_tails _ _).mpr ⟨pre, (List.append_assoc ..).symm⟩, ?_⟩
      rw [List.append_assoc, hstart]
      exact Option.isSome_iff_exists.mpr ⟨post, Branch.rest_eq_some.mpr ⟨mid, rfl, hm⟩⟩)

end Matching

structure Engine where
  fullMatch : List Char → List Char → Bool
  partialMatch : List Char → List Char → Bool

/-- The engine reads the patterns of this module as they are meant. -/
structure Engine.Lawful (e : Engine) : Prop where
  full_iff : ∀ q p s, parse q = some p → (e.fullMatch q s = true ↔ p.Full s)
  partial_iff : ∀ q p s, parse q = some p → (e.partialMatch q s = true ↔ p.Partial s)

def reference : Engine where
  fullMatch q s := match parse q with
    | none => false
    | some p => decide (p.Full s)
  partialMatch q s := match parse q with
    | none => false
    | some p => decide (p.Partial s)

theorem reference_lawful : reference.Lawful where
  full_iff q p s h := by simp [reference, h]
  partial_iff q p s h := by simp [reference, h]

end Regex
