import DuckdbLoki.QueryText
import DuckdbLoki.Reading.Framing

namespace DuckdbLoki

open LogQL (Token Query run tokens tokensFrom run_append tokensFrom_append selector render read)

section Reading

def readMatchOp (op : Str) : Option MatchOp :=
  if op = "=".toList then some .eq
  else if op = "!=".toList then some .neq
  else if op = "=~".toList then some .re
  else if op = "!~".toList then some .nre
  else none

def readLineOp (op : Str) : Option LineOp :=
  if op = "|=".toList then some .contains
  else if op = "!=".toList then some .notContains
  else if op = "|~".toList then some .matches
  else if op = "!~".toList then some .notMatches
  else none

def readMatcher (m : LogQL.Matcher) : Option LabelMatcher :=
  (readMatchOp m.op).bind (fun op ↦ (LogQL.unquote m.literal).map (⟨m.name, op, ·⟩))

def readLineFilter (f : Str × Str) : Option LineFilter := (readLineOp f.1).map (⟨·, f.2⟩)

def readLineFilters (ts : List Token) : Option (List LineFilter) :=
  (LogQL.lineFilters ts).bind (fun fs ↦ fs.mapM readLineFilter)

theorem unescape_escapeLogQLChar (c : Char) (s : Str) :
    LogQL.unescape (escapeLogQLChar c ++ s) = (LogQL.unescape s).map (c :: ·) := by
  unfold escapeLogQLChar
  split_ifs with hback hquote hline htab hreturn
  · subst hback
    rfl
  · subst hquote
    rfl
  · subst hline
    rfl
  · subst htab
    rfl
  · subst hreturn
    rfl
  · rw [List.singleton_append, LogQL.unescape]
    all_goals simp_all

theorem unescape_escapeLogQLString (value : Str) :
    LogQL.unescape (escapeLogQLString value ++ ['"']) = some value := by
  induction value with
  | nil => rfl
  | cons c value ih =>
    rw [escapeLogQLString, List.flatMap_cons, List.append_assoc, unescape_escapeLogQLChar,
      ← escapeLogQLString, ih]
    rfl

theorem unquote_literal (value : Str) :
    LogQL.unquote ('"' :: escapeLogQLString value ++ ['"']) = some value :=
  unescape_escapeLogQLString value

theorem readMatcher_written (m : LabelMatcher) : readMatcher m.written = some m := by
  have hop : readMatchOp m.op.text = some m.op := by cases m.op <;> rfl
  rw [readMatcher, LabelMatcher.written, hop, Option.bind_some, unquote_literal]
  rfl

theorem mapM_some {α β : Type} {write : α → β} {read : β → Option α}
    (h : ∀ a, read (write a) = some a) (l : List α) : (l.map write).mapM read = some l := by
  induction l with
  | nil => rfl
  | cons a l ih => rw [List.map_cons, List.mapM_cons, h, ih]; rfl

theorem readLineFilters_written (fs : List LineFilter) :
    readLineFilters (fs.flatMap LineFilter.written) = some fs := by
  have htexts : LogQL.lineFilters (fs.flatMap LineFilter.written) =
      some (fs.map (fun f ↦ (f.op.text, f.value))) := by
    induction fs with
    | nil => rfl
    | cons f fs ih =>
      rw [List.flatMap_cons, LineFilter.written, List.cons_append, List.singleton_append,
        LogQL.lineFilters, unquote_literal, Option.bind_some, ih]
      rfl
  have hfilter : ∀ f : LineFilter, readLineFilter (f.op.text, f.value) = some f := by
    intro f
    rw [readLineFilter, show readLineOp f.op.text = some f.op by cases f.op <;> rfl]
    rfl
  rw [readLineFilters, htexts, Option.bind_some]
  exact mapM_some hfilter fs

end Reading

section Selector

theorem read_of_tokens {s : Str} {ms : List LogQL.Matcher} {rest : List Token}
    (h : tokens s = some (.mark '{' :: (render ms ++ .mark '}' :: rest)))
    (hms : ∀ m ∈ ms, LogQL.isMatchOp m.op = true) (hrest : rest.any LogQL.isBrace = false) :
    read s = some ⟨ms, rest⟩ := by
  rw [LogQL.read, h, Option.bind_some, ← List.cons_append, LogQL.selector_render hms]
  exact if_neg (by rw [hrest]; exact Bool.false_ne_true)

theorem tokens_of_selector {sel : Str} {ms : List LogQL.Matcher}
    (h : (tokens ('{' :: (sel ++ ['}']))).bind selector = some (ms, [])) :
    tokens sel = some (render ms) ∧ ∀ m ∈ ms, LogQL.isMatchOp m.op = true := by
  obtain ⟨ts, hts, hselector⟩ := Option.bind_eq_some_iff.mp h
  obtain ⟨rfl, hms⟩ := LogQL.selector_eq_some hselector
  refine ⟨?_, hms⟩
  rw [tokens, LogQL.tokensFrom_mark none rfl, tokens, tokensFrom_append] at hts
  obtain ⟨body, hbody, heq⟩ := Option.map_eq_some_iff.mp hts
  obtain ⟨last, hlast, rfl⟩ := Option.map_eq_some_iff.mp hbody
  cases hmode : (run (.code none) sel).1 with
  | code p =>
    rw [hmode, LogQL.tokensFrom_mark p rfl, show tokens [] = some [] from rfl] at hlast
    obtain rfl := Option.some.inj hlast
    have hbody : (run (.code none) sel).2 ++ p.toList = render ms :=
      List.append_cancel_right (show _ ++ [Token.mark '}'] = _ ++ [Token.mark '}'] by simpa using heq)
    rw [tokens, tokensFrom, hmode, ← hbody]
    rfl
  | quoted text | escaped text | raw text | bad =>
    rw [hmode] at hlast
    cases hlast

theorem tokens_trim_eq_nil {s : Str} {ms : List LogQL.Matcher} (h : tokens s = some (render ms)) :
    trim s = [] ↔ ms = [] := by
  rw [← tokens_trim] at h
  constructor
  · intro hs
    rw [hs] at h
    cases ms with
    | nil => rfl
    | cons m ms => cases h
  · rintro rfl
    cases hs : trim s with
    | nil => rfl
    | cons c t =>
      rw [hs] at h
      exact absurd rfl (LogQL.tokens_cons_ne_nil (trim_head hs) h)

theorem tokens_query {inner : Str} {ws : List LogQL.Matcher} (h : tokens inner = some (render ws))
    {ms : List LabelMatcher} (hms : ∀ m ∈ ms, isValidLabelName m.label = true) (z : Str) :
    tokens ('{' :: (trim inner ++ (joinMatchers (trim inner = []) ms ++ '}' :: z))) =
      (tokens z).map (fun rest ↦
        .mark '{' :: (render (ws ++ ms.map LabelMatcher.written) ++ .mark '}' :: rest)) := by
  rw [← tokens_trim] at h
  obtain ⟨ts, hfinish, hts⟩ := Option.map_eq_some_iff.mp h
  obtain ⟨p, hmode, rfl⟩ := LogQL.finish_eq_some hfinish
  have hempty : decide (trim inner = []) = decide (ws = []) :=
    decide_eq_decide.mpr (tokens_trim_eq_nil ((tokens_trim inner).symm.trans h))
  have hfirst : decide (trim inner = []) = true → p = none := by
    intro hnil
    rw [of_decide_eq_true hnil] at hmode
    exact (LogQL.Mode.code.inj hmode).symm
  have hwritten := render_matcherTokens ws ms
  rw [← hts] at hwritten
  rw [tokens, LogQL.tokensFrom_mark none rfl, tokens, tokensFrom_append, hmode,
    tokensFrom_joinMatchers hfirst hms, Option.map_map, Option.map_map, hempty,
    ← hwritten]
  exact congrArg (Option.map · _) (funext fun rest ↦ by simp)

end Selector

section Base

variable {lead sel pipe : Str} (hlead : ∀ c ∈ lead, LogQL.isSpace c = true)

include hlead

theorem trim_base : trim (lead ++ '{' :: (sel ++ '}' :: pipe)) =
    '{' :: (sel ++ '}' :: pipe.rdropWhile isTrimmed) := by
  have hdrop : lead.dropWhile isTrimmed = [] := List.dropWhile_eq_nil_iff.mpr hlead
  rw [trim, dropWhile_append_cons rfl, hdrop, List.nil_append, ← List.cons_append,
    rdropWhile_append_cons rfl]
  rfl

end Base

/-- The query reads as the base does, with the pushed matchers and filters at
the ends of its two parts. -/
def Extends (query : Option Query) (ms : List LogQL.Matcher) (toks : List Token)
    (matchers : List LabelMatcher) (filters : List LineFilter) : Prop :=
  ∃ pushed rest, query = some ⟨ms ++ pushed, toks ++ rest⟩ ∧
    pushed.mapM readMatcher = some matchers ∧ readLineFilters rest = some filters

section Split

variable {lead sel pipe : Str} {ms : List LogQL.Matcher} {toks : List Token}
  (hlead : ∀ c ∈ lead, LogQL.isSpace c = true)
  (hsel : (tokens ('{' :: (sel ++ ['}']))).bind selector = some (ms, []))
  (hpipe : tokens pipe = some toks) (hbrace : toks.any LogQL.isBrace = false)
  {matchers : List LabelMatcher} (hmatchers : ∀ m ∈ matchers, isValidLabelName m.label = true)
  (filters : List LineFilter)

theorem any_isBrace_written : (filters.flatMap LineFilter.written).any LogQL.isBrace = false := by
  rw [List.any_flatMap, List.any_eq_false]
  exact fun f _ ↦ Bool.false_ne_true

theorem isMatchOp_written : ∀ m ∈ matchers.map LabelMatcher.written,
    LogQL.isMatchOp m.op = true := by
  intro m hm
  obtain ⟨m, _, rfl⟩ := List.mem_map.mp hm
  change LogQL.isMatchOp m.op.text = true
  cases m.op <;> rfl

include hlead hsel hpipe hbrace

theorem extends_of_notMem (hmatchers : ∀ m ∈ matchers, isValidLabelName m.label = true)
    (hclose : '}' ∉ pipe) :
    Extends (read (buildSelectorQuery (lead ++ '{' :: (sel ++ '}' :: pipe)) matchers filters))
      ms toks matchers filters := by
  obtain ⟨hbody, hms⟩ := tokens_of_selector hsel
  have hpre : pipe.rdropWhile isTrimmed <+: pipe := List.rdropWhile_prefix _ _
  have hbase : splitBase (trim (lead ++ '{' :: (sel ++ '}' :: pipe))) =
      (sel, pipe.rdropWhile isTrimmed) := by
    rw [trim_base hlead, splitBase_append (fun h ↦ hclose (hpre.subset h))]
  have htail : tokens (trim (pipe.rdropWhile isTrimmed)) = some toks := by
    rw [tokens_trim, tokens, tokensFrom_rdropWhile]
    exact hpipe
  refine ⟨matchers.map LabelMatcher.written, filters.flatMap LineFilter.written, ?_,
    mapM_some readMatcher_written matchers, readLineFilters_written filters⟩
  rw [buildSelectorQuery_eq hbase]
  refine read_of_tokens ?_ (List.forall_mem_append.mpr ⟨hms, isMatchOp_written⟩) ?_
  · rw [tokens_query hbody hmatchers, tokens_queryTail htail]
    rfl
  · rw [List.any_append, hbrace, any_isBrace_written]
    rfl

end Split

end DuckdbLoki
