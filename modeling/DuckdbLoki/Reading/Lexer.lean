import Mathlib.Data.List.DropRight
import Mathlib.Tactic.Common

namespace LogQL

inductive Token
  | word (s : List Char)
  | operator (s : List Char)
  | mark (c : Char)
  | literal (s : List Char)
deriving DecidableEq

/-- Where the lexer stands: in code with a token not yet ended, or in a literal
with its text so far, the opening quote included. -/
inductive Mode
  | code (pending : Option Token)
  | quoted (text : List Char)
  | escaped (text : List Char)
  | raw (text : List Char)
  | bad
deriving DecidableEq

section Characters

def isSpace (c : Char) : Bool := c = ' ' || c = '\t' || c = '\n' || c = '\r'

def isMark (c : Char) : Bool :=
  c = '\x7b' || c = '\x7d' || c = '(' || c = ')' || c = '[' || c = ']' || c = ','

def isWordChar (c : Char) : Bool :=
  'a' ≤ c && c ≤ 'z' || 'A' ≤ c && c ≤ 'Z' || '0' ≤ c && c ≤ '9' || c = '_' || c = '.' || c = ':'

def isEscape (c : Char) : Bool := c ∈ "abfnrtv\\\"xuU01234567".toList

end Characters

def stepCode (pending : Option Token) (c : Char) : Mode × List Token :=
  if isSpace c then (.code none, pending.toList)
  else if c = '"' then (.quoted [c], pending.toList)
  else if c = '\x60' then (.raw [c], pending.toList)
  else if c = '#' then (.bad, [])
  else if isMark c then (.code none, pending.toList ++ [.mark c])
  else if isWordChar c then
    match pending with
    | some (.word s) => (.code (some (.word (s ++ [c]))), [])
    | _ => (.code (some (.word [c])), pending.toList)
  else
    match pending with
    | some (.operator s) => (.code (some (.operator (s ++ [c]))), [])
    | _ => (.code (some (.operator [c])), pending.toList)

def step : Mode → Char → Mode × List Token
  | .code pending, c => stepCode pending c
  | .quoted text, c =>
    if c = '"' then (.code none, [.literal (text ++ [c])])
    else if c = '\\' then (.escaped (text ++ [c]), [])
    else if c = '\n' then (.bad, [])
    else (.quoted (text ++ [c]), [])
  | .escaped text, c => if isEscape c then (.quoted (text ++ [c]), []) else (.bad, [])
  | .raw text, c =>
    if c = '\x60' then (.code none, [.literal (text ++ [c])]) else (.raw (text ++ [c]), [])
  | .bad, _ => (.bad, [])

def run : Mode → List Char → Mode × List Token
  | m, [] => (m, [])
  | m, c :: s => ((run (step m c).1 s).1, (step m c).2 ++ (run (step m c).1 s).2)

def Mode.finish : Mode → Option (List Token)
  | .code pending => some pending.toList
  | _ => none

def tokensFrom (m : Mode) (s : List Char) : Option (List Token) :=
  (run m s).1.finish.map ((run m s).2 ++ ·)

def tokens (s : List Char) : Option (List Token) := tokensFrom (.code none) s

section Run

theorem run_append (m : Mode) (s t : List Char) :
    run m (s ++ t) = ((run (run m s).1 t).1, (run m s).2 ++ (run (run m s).1 t).2) := by
  induction s generalizing m with
  | nil => rfl
  | cons c s ih => simp only [List.cons_append, run, ih, List.append_assoc]

theorem finish_eq_some {m : Mode} {ts : List Token} (h : m.finish = some ts) :
    ∃ p, m = .code p ∧ ts = p.toList := by
  cases m with
  | code p => exact ⟨p, rfl, (Option.some.inj h).symm⟩
  | _ => cases h

theorem tokensFrom_append (m : Mode) (s t : List Char) :
    tokensFrom m (s ++ t) = (tokensFrom (run m s).1 t).map ((run m s).2 ++ ·) := by
  simp only [tokensFrom, run_append, Option.map_map]
  exact congrArg (Option.map · _) (funext fun ts ↦ List.append_assoc ..)

theorem tokensFrom_cons (m : Mode) (c : Char) (s : List Char) :
    tokensFrom m (c :: s) = (tokensFrom (step m c).1 s).map ((step m c).2 ++ ·) := by
  simp only [tokensFrom, run, Option.map_map]
  exact congrArg (Option.map · _) (funext fun ts ↦ List.append_assoc ..)

end Run

section Code

theorem step_space (p : Option Token) {c : Char} (hc : isSpace c = true) :
    step (.code p) c = (.code none, p.toList) := if_pos hc

theorem isMark_ne {c d : Char} (hc : isMark c = true) (hd : isMark d = false) : c ≠ d := by
  rintro rfl
  rw [hc] at hd
  cases hd

theorem step_mark (p : Option Token) {c : Char} (hc : isMark c = true) :
    step (.code p) c = (.code none, p.toList ++ [.mark c]) := by
  have hspace : isSpace c = false := by
    simp only [isSpace, isMark_ne hc (d := ' ') rfl, isMark_ne hc (d := '\t') rfl,
      isMark_ne hc (d := '\n') rfl, isMark_ne hc (d := '\r') rfl, decide_false, Bool.or_false]
  simp only [step, stepCode, hspace, isMark_ne hc (d := '"') rfl, isMark_ne hc (d := '\x60') rfl,
    isMark_ne hc (d := '#') rfl, hc, Bool.false_eq_true, if_false, if_true]

theorem tokensFrom_space (p : Option Token) {c : Char} (hc : isSpace c = true) (s : List Char) :
    tokensFrom (.code p) (c :: s) = (tokens s).map (p.toList ++ ·) := by
  rw [tokensFrom_cons, step_space p hc]
  rfl

theorem tokensFrom_mark (p : Option Token) {c : Char} (hc : isMark c = true) (s : List Char) :
    tokensFrom (.code p) (c :: s) = (tokens s).map (p.toList ++ .mark c :: ·) := by
  rw [tokensFrom_cons, step_mark p hc]
  exact congrArg (Option.map · _) (funext fun ts ↦ List.append_assoc ..)

theorem step_word (p : Option Token) {c : Char} (hc : isWordChar c = true) :
    step (.code p) c = match p with
      | some (.word s) => (.code (some (.word (s ++ [c]))), [])
      | _ => (.code (some (.word [c])), p.toList) := by
  have hne : ∀ d, isWordChar d = false → c ≠ d := by
    rintro d hd rfl
    rw [hc] at hd
    cases hd
  have hspace : isSpace c = false := by
    simp only [isSpace, hne ' ' rfl, hne '\t' rfl, hne '\n' rfl, hne '\r' rfl, decide_false,
      Bool.or_false]
  have hmark : isMark c = false := by
    simp only [isMark, hne '\x7b' rfl, hne '\x7d' rfl, hne '(' rfl, hne ')' rfl, hne '[' rfl,
      hne ']' rfl, hne ',' rfl, decide_false, Bool.or_false]
  simp only [step, stepCode, hspace, hne '"' rfl, hne '\x60' rfl, hne '#' rfl, hmark, hc,
    Bool.false_eq_true, if_false, if_true]

theorem run_word {s t : List Char} (ht : ∀ c ∈ t, isWordChar c = true) :
    run (.code (some (.word s))) t = (.code (some (.word (s ++ t))), []) := by
  induction t generalizing s with
  | nil => rw [List.append_nil]; rfl
  | cons c t ih =>
    rw [run, step_word _ (ht c List.mem_cons_self)]
    dsimp only
    rw [ih (fun d hd ↦ ht d (List.mem_cons_of_mem _ hd)), List.append_assoc]
    rfl

theorem step_progress {m : Mode} (hm : m ≠ .code none) (c : Char) :
    (step m c).2 ≠ [] ∨ (step m c).1 ≠ .code none := by
  cases m with
  | code p =>
    obtain ⟨t, rfl⟩ := Option.ne_none_iff_exists'.mp (fun h : p = none ↦ hm (by rw [h]))
    simp only [step, stepCode]
    split_ifs
    all_goals first | (split <;> simp) | simp
  | quoted text =>
    simp only [step]
    split_ifs <;> simp
  | escaped text =>
    simp only [step]
    split_ifs <;> simp
  | raw text =>
    simp only [step]
    split_ifs <;> simp
  | bad => exact Or.inr (by simp [step])

theorem tokensFrom_ne_nil {m : Mode} (hm : m ≠ .code none) {s : List Char} {ts : List Token}
    (h : tokensFrom m s = some ts) : ts ≠ [] := by
  induction s generalizing m ts with
  | nil =>
    obtain ⟨ts', hfinish, rfl⟩ := Option.map_eq_some_iff.mp h
    obtain ⟨p, rfl, rfl⟩ := finish_eq_some hfinish
    obtain ⟨t, rfl⟩ := Option.ne_none_iff_exists'.mp (fun h : p = none ↦ hm (by rw [h]))
    exact List.cons_ne_nil _ _
  | cons c s ih =>
    rw [tokensFrom_cons] at h
    obtain ⟨ts', hs, rfl⟩ := Option.map_eq_some_iff.mp h
    rcases step_progress hm c with hout | hmode
    · exact List.append_ne_nil_of_left_ne_nil hout _
    · exact List.append_ne_nil_of_right_ne_nil _ (ih hmode hs)

theorem step_none_progress {c : Char} (hc : isSpace c = false) :
    (step (.code none) c).2 ≠ [] ∨ (step (.code none) c).1 ≠ .code none := by
  simp only [step, stepCode, hc]
  split_ifs <;> simp_all

theorem tokens_cons_ne_nil {c : Char} (hc : isSpace c = false) {s : List Char} {ts : List Token}
    (h : tokens (c :: s) = some ts) : ts ≠ [] := by
  rw [tokens, tokensFrom_cons] at h
  obtain ⟨ts', hs, rfl⟩ := Option.map_eq_some_iff.mp h
  rcases step_none_progress hc with hout | hmode
  · exact List.append_ne_nil_of_left_ne_nil hout _
  · exact List.append_ne_nil_of_right_ne_nil _ (tokensFrom_ne_nil hmode hs)

end Code

section Spaces

variable {w : List Char} (hw : ∀ c ∈ w, isSpace c = true)

include hw

theorem tokens_spaces_append (s : List Char) : tokens (w ++ s) = tokens s := by
  induction w with
  | nil => rfl
  | cons c w ih =>
    rw [List.cons_append, tokens, tokensFrom_space none (hw c List.mem_cons_self),
      ih (fun d hd ↦ hw d (List.mem_cons_of_mem _ hd))]
    exact Option.map_id'

theorem tokensFrom_spaces (m : Mode) : tokensFrom m w = m.finish := by
  induction w generalizing m with
  | nil => exact Option.map_id'
  | cons c w ih =>
    have hc := hw c List.mem_cons_self
    have ih := ih (fun d hd ↦ hw d (List.mem_cons_of_mem _ hd))
    rw [tokensFrom_cons, ih]
    cases m with
    | code p =>
      rw [step_space p hc]
      simp [Mode.finish]
    | bad => rfl
    | quoted text | escaped text | raw text =>
      simp only [step]
      split_ifs <;> simp_all [Mode.finish, isSpace]

theorem tokensFrom_append_spaces (m : Mode) (s : List Char) :
    tokensFrom m (s ++ w) = tokensFrom m s := by
  rw [tokensFrom_append, tokensFrom_spaces hw]
  rfl

end Spaces

section Literals

end Literals

end LogQL
