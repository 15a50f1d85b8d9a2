import DuckdbLoki.Reading.Lexer

namespace LogQL

structure Matcher where
  name : List Char
  op : List Char
  literal : List Char
deriving DecidableEq

/-- A pipeline is its tokens; its stages are not told apart here. -/
structure Query where
  matchers : List Matcher
  pipeline : List Token
deriving DecidableEq

section Selector

def Matcher.tokens (m : Matcher) : List Token := [.word m.name, .operator m.op, .literal m.literal]

def isMatchOp (op : List Char) : Bool :=
  op = "=".toList || op = "!=".toList || op = "=~".toList || op = "!~".toList

def matchersUpTo : List Token → Option (List Matcher × List Token)
  | .word n :: .operator o :: .literal l :: .mark c :: ts =>
    if ¬ isMatchOp o then none
    else if c = '\x7d' then some ([⟨n, o, l⟩], ts)
    else if c = ',' then (matchersUpTo ts).map (fun (ms, rest) ↦ (⟨n, o, l⟩ :: ms, rest))
    else none
  | _ => none

def selector : List Token → Option (List Matcher × List Token)
  | .mark '\x7b' :: .mark '\x7d' :: ts => some ([], ts)
  | .mark '\x7b' :: ts => matchersUpTo ts
  | _ => none

def isBrace : Token → Bool
  | .mark c => c = '\x7b' || c = '\x7d'
  | _ => false

/-- Read a log query; there are no braces in a pipeline outside its literals. -/
def read (s : List Char) : Option Query :=
  (tokens s).bind (fun ts ↦ (selector ts).bind (fun (ms, rest) ↦
    if rest.any isBrace then none else some ⟨ms, rest⟩))

def render : List Matcher → List Token
  | [] => []
  | m :: ms => m.tokens ++ ms.flatMap (fun m ↦ .mark ',' :: m.tokens)

theorem render_append (ms : List Matcher) (m : Matcher) :
    render (ms ++ [m]) = render ms ++ (if ms = [] then [] else [.mark ',']) ++ m.tokens := by
  cases ms with
  | nil => simp [render]
  | cons m' ms => simp [render, List.flatMap_append]

theorem render_cons_cons (m m' : Matcher) (ms : List Matcher) :
    render (m :: m' :: ms) = m.tokens ++ .mark ',' :: render (m' :: ms) := by
  simp [render]

theorem matchersUpTo_render {ms : List Matcher} (hms : ∀ m ∈ ms, isMatchOp m.op = true)
    (hne : ms ≠ []) (rest : List Token) :
    matchersUpTo (render ms ++ .mark '\x7d' :: rest) = some (ms, rest) := by
  induction ms with
  | nil => exact absurd rfl hne
  | cons m ms ih =>
    have hop := hms m List.mem_cons_self
    cases ms with
    | nil =>
      rw [show render [m] = m.tokens from List.append_nil _]
      simp [Matcher.tokens, matchersUpTo, hop]
    | cons m' ms =>
      rw [render_cons_cons, List.append_assoc, List.cons_append]
      simp only [Matcher.tokens, List.cons_append, List.nil_append, matchersUpTo]
      rw [if_neg (not_not.mpr hop), if_neg (by decide), if_pos trivial,
        ih (fun m hm ↦ hms m (List.mem_cons_of_mem _ hm)) (List.cons_ne_nil _ _)]
      rfl

theorem matchersUpTo_eq_some {ts rest : List Token} {ms : List Matcher}
    (h : matchersUpTo ts = some (ms, rest)) :
    ts = render ms ++ .mark '\x7d' :: rest ∧ ms ≠ [] ∧ ∀ m ∈ ms, isMatchOp m.op = true := by
  fun_induction matchersUpTo ts generalizing ms with
  | case1 => cases h
  | case2 n o l ts hop =>
    obtain ⟨rfl, rfl⟩ := Prod.mk.inj (Option.some.inj h)
    exact ⟨rfl, List.cons_ne_nil _ _, List.forall_mem_singleton.mpr (not_not.mp hop)⟩
  | case3 n o l ts hop _ ih =>
    obtain ⟨⟨ms', rest'⟩, hts, heq⟩ := Option.map_eq_some_iff.mp h
    obtain ⟨rfl, rfl⟩ := Prod.mk.inj heq
    obtain ⟨rfl, hne, hms⟩ := ih hts
    obtain ⟨m, ms', rfl⟩ := List.exists_cons_of_ne_nil hne
    refine ⟨?_, List.cons_ne_nil _ _, List.forall_mem_cons.mpr ⟨not_not.mp hop, hms⟩⟩
    rw [render_cons_cons]
    rfl
  | case4 => cases h
  | case5 => cases h

theorem selector_render {ms : List Matcher} (hms : ∀ m ∈ ms, isMatchOp m.op = true)
    (rest : List Token) :
    selector (.mark '\x7b' :: render ms ++ .mark '\x7d' :: rest) = some (ms, rest) := by
  cases ms with
  | nil => rfl
  | cons m ms => exact matchersUpTo_render hms (List.cons_ne_nil _ _) rest

theorem selector_eq_some {ts rest : List Token} {ms : List Matcher}
    (h : selector ts = some (ms, rest)) :
    ts = .mark '\x7b' :: render ms ++ .mark '\x7d' :: rest ∧
      ∀ m ∈ ms, isMatchOp m.op = true := by
  unfold selector at h
  split at h
  · obtain ⟨rfl, rfl⟩ := Prod.mk.inj (Option.some.inj h)
    exact ⟨rfl, nofun⟩
  · obtain ⟨rfl, _, hms⟩ := matchersUpTo_eq_some h
    exact ⟨rfl, hms⟩
  · cases h

end Selector

section Literals

def unescapeChar (c : Char) : Option Char :=
  if c = 'a' then some '\x07'
  else if c = 'b' then some '\x08'
  else if c = 'f' then some '\x0c'
  else if c = 'n' then some '\n'
  else if c = 'r' then some '\r'
  else if c = 't' then some '\t'
  else if c = 'v' then some '\x0b'
  else if c = '\\' then some '\\'
  else if c = '"' then some '"'
  else none

def unescape : List Char → Option (List Char)
  | [] => none
  | ['"'] => some []
  | '"' :: _ => none
  | '\n' :: _ => none
  | ['\\'] => none
  | '\\' :: c :: s => (unescapeChar c).bind (fun d ↦ (unescape s).map (d :: ·))
  | c :: s => (unescape s).map (c :: ·)

/-- The text a literal stands for, if it has no numeric escapes. -/
def unquote : List Char → Option (List Char)
  | '"' :: s => unescape s
  | '\x60' :: s =>
    if s.getLast? = some '\x60' then some (s.dropLast.filter (· ≠ '\r')) else none
  | _ => none

def lineFilters : List Token → Option (List (List Char × List Char))
  | [] => some []
  | .operator o :: .literal l :: ts =>
    (unquote l).bind (fun v ↦ (lineFilters ts).map ((o, v) :: ·))
  | _ => none

theorem lineFilters_append {ts ts' : List Token} {fs fs' : List (List Char × List Char)}
    (h : lineFilters ts = some fs) (h' : lineFilters ts' = some fs') :
    lineFilters (ts ++ ts') = some (fs ++ fs') := by
  induction ts using lineFilters.induct generalizing fs with
  | case1 =>
    rw [← Option.some.inj h]
    exact h'
  | case2 o l ts ih =>
    obtain ⟨v, hv, h⟩ := Option.bind_eq_some_iff.mp h
    obtain ⟨rest, hrest, rfl⟩ := Option.map_eq_some_iff.mp h
    rw [List.cons_append, List.cons_append, lineFilters, hv, Option.bind_some, ih hrest]
    rfl
  | case3 ts hnil hcons =>
    rw [lineFilters] at h
    · cases h
    · exact hnil
    · exact hcons

end Literals

end LogQL
