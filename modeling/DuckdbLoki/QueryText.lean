import DuckdbLoki.LogQL
import DuckdbLoki.Reading.Grammar

namespace DuckdbLoki

open LogQL (Token Query run tokens tokensFrom run_append tokensFrom_append selector render)

section Written

def LabelMatcher.written (m : LabelMatcher) : LogQL.Matcher :=
  ⟨m.label, m.op.text, '"' :: escapeLogQLString m.value ++ ['"']⟩

def LineFilter.written (f : LineFilter) : List Token :=
  [.operator f.op.text, .literal ('"' :: escapeLogQLString f.value ++ ['"'])]

theorem run_escapePair (text : Str) {c : Char} (hc : LogQL.isEscape c = true) :
    run (.quoted text) ['\\', c] = (.quoted (text ++ ['\\', c]), []) := by
  rw [run, show LogQL.step (.quoted text) '\\' = (.escaped (text ++ ['\\']), []) from rfl]
  dsimp only
  rw [run, LogQL.step, if_pos hc, List.append_assoc]
  rfl

theorem run_escapeLogQLString (text value : Str) :
    run (.quoted text) (escapeLogQLString value) =
      (.quoted (text ++ escapeLogQLString value), []) := by
  induction value generalizing text with
  | nil => rw [escapeLogQLString, List.flatMap_nil, List.append_nil]; rfl
  | cons c value ih =>
    have hchar : run (.quoted text) (escapeLogQLChar c) =
        (.quoted (text ++ escapeLogQLChar c), []) := by
      unfold escapeLogQLChar
      split_ifs with hback hquote hline htab hreturn
      · exact run_escapePair text rfl
      · exact run_escapePair text rfl
      · exact run_escapePair text rfl
      · exact run_escapePair text rfl
      · exact run_escapePair text rfl
      · rw [run, LogQL.step, if_neg hquote, if_neg hback, if_neg hline]
        rfl
    rw [escapeLogQLString, List.flatMap_cons, run_append, hchar]
    dsimp only
    rw [← escapeLogQLString, ih, List.append_assoc]
    rfl

theorem run_literal (p : Option Token) (value : Str) :
    run (.code p) ('"' :: escapeLogQLString value ++ ['"']) =
      (.code none, p.toList ++ [.literal ('"' :: escapeLogQLString value ++ ['"'])]) := by
  rw [List.cons_append, run, show LogQL.step (.code p) '"' = (.quoted ['"'], p.toList) from rfl]
  dsimp only
  rw [run_append, run_escapeLogQLString]
  rfl

theorem isWordChar_of_label {label : Str} (h : isValidLabelName label = true) :
    label ≠ [] ∧ ∀ c ∈ label, LogQL.isWordChar c = true := by
  cases label with
  | nil => cases h
  | cons c s =>
    obtain ⟨hc, hs⟩ := Bool.and_eq_true_iff.mp h
    refine ⟨List.cons_ne_nil _ _, List.forall_mem_cons.mpr ⟨?_, fun d hd ↦ ?_⟩⟩
    · simp only [isLetter, LogQL.isWordChar, Bool.or_eq_true, decide_eq_true_eq] at hc ⊢
      rcases hc with (hc | hc) | hc <;> simp [hc]
    · have hd := List.all_eq_true.mp hs d hd
      simp only [isLetter, LogQL.isWordChar, Bool.or_eq_true, decide_eq_true_eq] at hd ⊢
      rcases hd with ((hd | hd) | hd) | hd <;> simp [hd]

theorem run_matcher {m : LabelMatcher} (h : isValidLabelName m.label = true) :
    run (.code none) (matcherToString m) = (.code none, m.written.tokens) := by
  obtain ⟨hne, hword⟩ := isWordChar_of_label h
  obtain ⟨c, s, hlabel⟩ := List.exists_cons_of_ne_nil hne
  have hname : run (.code none) m.label = (.code (some (.word m.label)), []) := by
    rw [hlabel] at hword ⊢
    rw [run, LogQL.step_word _ (hword c List.mem_cons_self)]
    dsimp only
    rw [LogQL.run_word (fun d hd ↦ hword d (List.mem_cons_of_mem _ hd))]
    rfl
  have hop : run (.code (some (.word m.label))) m.op.text =
      (.code (some (.operator m.op.text)), [.word m.label]) := by
    cases m.op <;> rfl
  rw [matcherToString, List.append_assoc, List.append_assoc, run_append, hname]
  dsimp only
  rw [run_append, hop]
  dsimp only
  rw [show '"' :: escapeLogQLString m.value ++ "\"".toList =
    '"' :: escapeLogQLString m.value ++ ['"'] from rfl, run_literal]
  rfl

theorem run_lineFilter (p : Option Token) (f : LineFilter) :
    run (.code p) (' ' :: lineFilterToString f) = (.code none, p.toList ++ f.written) := by
  have hop : run (.code none) (f.op.text ++ [' ']) = (.code none, [.operator f.op.text]) := by
    cases f.op <;> rfl
  have htext : lineFilterToString f =
      (f.op.text ++ [' ']) ++ ('"' :: escapeLogQLString f.value ++ ['"']) := by
    simp [lineFilterToString]
  rw [run, LogQL.step_space p rfl]
  dsimp only
  rw [htext, run_append, hop]
  dsimp only
  rw [run_literal]
  rfl

end Written

section Text

def joinMatchers : Bool → List LabelMatcher → Str
  | _, [] => []
  | first, m :: ms =>
    (if first then [] else ", ".toList) ++ matcherToString m ++ joinMatchers false ms

theorem foldl_appendMatcher (s : Str) (first : Bool) (ms : List LabelMatcher) :
    (ms.foldl appendMatcher (s, first)).1 = s ++ joinMatchers first ms := by
  induction ms generalizing s first with
  | nil => exact (List.append_nil s).symm
  | cons m ms ih =>
    rw [List.foldl_cons, appendMatcher, ih, joinMatchers]
    simp only [List.append_assoc]

theorem foldl_lineFilter (s : Str) (fs : List LineFilter) :
    fs.foldl (fun query f ↦ query ++ ' ' :: lineFilterToString f) s =
      s ++ fs.flatMap (fun f ↦ ' ' :: lineFilterToString f) := by
  induction fs generalizing s with
  | nil => simp
  | cons f fs ih => rw [List.foldl_cons, ih, List.flatMap_cons, List.append_assoc]

def queryTail (rest : Str) (fs : List LineFilter) : Str :=
  (if rest = [] then [] else ' ' :: rest) ++ fs.flatMap (fun f ↦ ' ' :: lineFilterToString f)

theorem buildSelectorQuery_eq {base inner rest : Str} (h : splitBase (trim base) = (inner, rest))
    (ms : List LabelMatcher) (fs : List LineFilter) :
    buildSelectorQuery base ms fs = '{' :: (trim inner ++
      (joinMatchers (trim inner = []) ms ++ '}' :: queryTail (trim rest) fs)) := by
  unfold buildSelectorQuery
  rw [h]
  dsimp only
  rw [foldl_lineFilter, queryTail]
  by_cases hinner : trim inner = [] <;> by_cases hrest : trim rest = []
  all_goals simp [hinner, hrest, foldl_appendMatcher]

theorem dropWhile_append_cons {p : Char → Bool} {c : Char} (hc : p c = false) (s t : Str) :
    (s ++ c :: t).dropWhile p = s.dropWhile p ++ c :: t := by
  induction s with
  | nil => exact List.dropWhile_cons_of_neg (by simp [hc])
  | cons d s ih =>
    cases hd : p d with
    | true => rw [List.cons_append, List.dropWhile_cons_of_pos hd, ih, List.dropWhile_cons_of_pos hd]
    | false =>
      rw [List.cons_append, List.dropWhile_cons_of_neg (by simp [hd]),
        List.dropWhile_cons_of_neg (by simp [hd])]
      rfl

theorem rdropWhile_append_cons {p : Char → Bool} {c : Char} (hc : p c = false) (s t : Str) :
    (s ++ c :: t).rdropWhile p = s ++ c :: t.rdropWhile p := by
  rw [List.rdropWhile, List.reverse_append, List.reverse_cons, List.append_assoc,
    List.singleton_append, dropWhile_append_cons hc, List.reverse_append, List.reverse_cons,
    List.reverse_reverse, List.append_assoc]
  rfl

theorem idxOf?_append_cons {c : Char} {s : Str} (hs : c ∉ s) (t : Str) :
    (s ++ c :: t).idxOf? c = some s.length := by
  induction s with
  | nil => simp [List.idxOf?_cons]
  | cons d s ih =>
    obtain ⟨hd, hs⟩ := not_or.mp (List.mem_cons.not.mp hs)
    rw [List.cons_append, List.idxOf?_cons, ih hs]
    simp [Ne.symm hd]

theorem rfind_append_cons {c : Char} {t : Str} (ht : c ∉ t) (s : Str) :
    rfind c (s ++ c :: t) = some s.length := by
  rw [rfind, List.reverse_append, List.reverse_cons, List.append_assoc, List.singleton_append,
    idxOf?_append_cons (by simpa using ht), Option.map_some]
  simp only [List.length_append, List.length_cons, List.length_reverse, Option.some.injEq]
  omega

theorem splitBase_append {t : Str} (ht : '}' ∉ t) (s : Str) :
    splitBase ('{' :: (s ++ '}' :: t)) = (s, t) := by
  have hopen : ('{' :: (s ++ '}' :: t)).idxOf? '{' = some 0 := by simp [List.idxOf?_cons]
  have hclose : rfind '}' ('{' :: (s ++ '}' :: t)) = some (s.length + 1) :=
    rfind_append_cons ht ('{' :: s)
  unfold splitBase
  rw [hopen]
  dsimp only
  rw [hclose]
  simp

theorem isSpace_of_mem_takeWhile {s : Str} :
    ∀ c ∈ s.takeWhile isTrimmed, LogQL.isSpace c = true :=
  fun _ hc ↦ List.mem_takeWhile_imp hc

theorem isSpace_of_mem_rtakeWhile {s : Str} :
    ∀ c ∈ s.rtakeWhile isTrimmed, LogQL.isSpace c = true :=
  fun _ hc ↦ List.mem_rtakeWhile_imp hc

theorem tokens_dropWhile (s : Str) : tokens (s.dropWhile isTrimmed) = tokens s := by
  conv_rhs => rw [← List.takeWhile_append_dropWhile (p := isTrimmed) (l := s),
    LogQL.tokens_spaces_append isSpace_of_mem_takeWhile]

theorem tokensFrom_rdropWhile (m : LogQL.Mode) (s : Str) :
    tokensFrom m (s.rdropWhile isTrimmed) = tokensFrom m s := by
  conv_rhs => rw [← List.rdropWhile_append_rtakeWhile (p := isTrimmed) (l := s),
    LogQL.tokensFrom_append_spaces isSpace_of_mem_rtakeWhile]

theorem tokens_trim (s : Str) : tokens (trim s) = tokens s :=
  (tokensFrom_rdropWhile _ _).trans (tokens_dropWhile s)

theorem trim_head {s t : Str} {c : Char} (h : trim s = c :: t) : LogQL.isSpace c = false := by
  obtain ⟨u, hu⟩ := List.rdropWhile_prefix isTrimmed (s.dropWhile isTrimmed)
  rw [show (s.dropWhile isTrimmed).rdropWhile isTrimmed = c :: t from h] at hu
  have hhead := List.head?_dropWhile_not isTrimmed s
  rw [← hu] at hhead
  change isTrimmed c = false
  simpa using hhead

end Text

section Tokens

def matcherTokens : Bool → List LabelMatcher → List Token
  | _, [] => []
  | first, m :: ms =>
    (if first then [] else [.mark ',']) ++ m.written.tokens ++ matcherTokens false ms

theorem render_matcherTokens (ws : List LogQL.Matcher) (ms : List LabelMatcher) :
    render ws ++ matcherTokens (ws = []) ms = render (ws ++ ms.map LabelMatcher.written) := by
  induction ms generalizing ws with
  | nil => simp [matcherTokens]
  | cons m ms ih =>
    rw [List.map_cons, List.append_cons, ← ih, LogQL.render_append, matcherTokens]
    simp

theorem tokensFrom_joinMatchers {first : Bool} {p : Option Token}
    (hfirst : first = true → p = none) {ms : List LabelMatcher}
    (hms : ∀ m ∈ ms, isValidLabelName m.label = true) (z : Str) :
    tokensFrom (.code p) (joinMatchers first ms ++ '}' :: z) =
      (tokens z).map (fun ts ↦ p.toList ++ (matcherTokens first ms ++ .mark '}' :: ts)) := by
  induction ms generalizing first p with
  | nil => exact LogQL.tokensFrom_mark p rfl z
  | cons m ms ih =>
    have hcomma : run (.code p) (if first then [] else ", ".toList) =
        (.code none, p.toList ++ if first then [] else [.mark ',']) := by
      cases first with
      | true => rw [hfirst rfl]; rfl
      | false =>
        rw [if_neg Bool.false_ne_true, if_neg Bool.false_ne_true,
          show ", ".toList = [',', ' '] from rfl, run, LogQL.step_mark p rfl]
        dsimp only
        rw [show run (.code none) [' '] = (.code none, []) from rfl, List.append_nil]
    obtain ⟨hm, hms⟩ := List.forall_mem_cons.mp hms
    rw [joinMatchers, List.append_assoc, List.append_assoc, tokensFrom_append, hcomma]
    dsimp only
    rw [tokensFrom_append, run_matcher hm]
    dsimp only
    rw [ih (fun _ ↦ rfl) hms, Option.map_map, Option.map_map, matcherTokens]
    exact congrArg (Option.map · _) (funext fun ts ↦ by simp)

theorem tokensFrom_filters (p : Option Token) (fs : List LineFilter) :
    tokensFrom (.code p) (fs.flatMap (fun f ↦ ' ' :: lineFilterToString f)) =
      some (p.toList ++ fs.flatMap LineFilter.written) := by
  induction fs generalizing p with
  | nil => simp [tokensFrom, run, LogQL.Mode.finish]
  | cons f fs ih =>
    rw [List.flatMap_cons, tokensFrom_append, run_lineFilter]
    dsimp only
    rw [ih, Option.map_some, List.flatMap_cons, List.append_assoc]
    rfl

theorem tokensFrom_append_filters {m : LogQL.Mode} {s : Str} {ts : List Token}
    (h : tokensFrom m s = some ts) (fs : List LineFilter) :
    tokensFrom m (s ++ fs.flatMap (fun f ↦ ' ' :: lineFilterToString f)) =
      some (ts ++ fs.flatMap LineFilter.written) := by
  obtain ⟨ts', hfinish, rfl⟩ := Option.map_eq_some_iff.mp h
  obtain ⟨p, hmode, rfl⟩ := LogQL.finish_eq_some hfinish
  rw [tokensFrom_append, hmode, tokensFrom_filters, Option.map_some, List.append_assoc]

theorem tokens_queryTail {rest : Str} {ts : List Token} (h : tokens rest = some ts)
    (fs : List LineFilter) :
    tokens (queryTail rest fs) = some (ts ++ fs.flatMap LineFilter.written) := by
  unfold queryTail
  split_ifs with hrest
  · subst hrest
    exact tokensFrom_append_filters h fs
  · rw [List.cons_append, tokens, LogQL.tokensFrom_space none rfl, tokens,
      tokensFrom_append_filters h]
    rfl

end Tokens

end DuckdbLoki
