import DuckdbLoki.LabelMatchers
import DuckdbLoki.Reading.Encodings

namespace DuckdbLoki

open Regex (Encoding Reads)

section Text

variable {e : Encoding} {s : Str}

theorem regexEscapeChar_ascii {c : Char} (h : c.toNat < 128) :
    ∀ d ∈ regexEscapeChar c, d.toNat < 128 := by
  unfold regexEscapeChar
  split_ifs
  · simp only [List.forall_mem_cons]
    exact ⟨by decide, h, nofun⟩
  · simp only [List.forall_mem_cons]
    exact ⟨h, nofun⟩

theorem regexEscapeChar_other {c : Char} (h : 128 ≤ c.toNat) : regexEscapeChar c = [c] := by
  rw [regexEscapeChar, if_neg]
  intro hmeta
  have hescapable := isEscapable_of_isMeta hmeta
  simp only [Regex.isEscapable, Bool.and_eq_true, decide_eq_true_eq] at hescapable
  omega

theorem isText_regexEscapeLiteral (hs : e.IsText s) : e.IsText (regexEscapeLiteral s) :=
  hs.flatMap (fun _ hc ↦ regexEscapeChar_ascii hc) (fun _ hc ↦ regexEscapeChar_other hc)

theorem isText_char (e : Encoding) {c : Char} (h : c.toNat < 128) : e.IsText [c] := by
  apply Encoding.isText_ascii
  intro d hd
  exact List.mem_singleton.mp hd ▸ h

theorem isText_alternatives {members : List Str} (h : ∀ m ∈ members, e.IsText m) :
    e.IsText (members.flatMap (fun m ↦ '|' :: regexEscapeLiteral m)) := by
  induction members with
  | nil => exact Encoding.isText_nil e
  | cons m members ih =>
    obtain ⟨hm, hmembers⟩ := List.forall_mem_cons.mp h
    rw [List.flatMap_cons]
    have hbar : e.IsText ['|'] := isText_char e (by decide)
    exact (hbar.append (isText_regexEscapeLiteral hm)).append (ih hmembers)

end Text

section Literals

variable {e : Encoding} {s : Str}

theorem reads_literal (hs : e.IsText s) : Reads e (regexEscapeLiteral s) [Regex.literal s] :=
  ⟨isText_regexEscapeLiteral hs, parse_regexEscapeLiteral s⟩

theorem reads_starts (hs : e.IsText s) :
    Reads e ('^' :: regexEscapeLiteral s) [.textStart :: Regex.literal s] := by
  have hcaret : e.IsText ['^'] := isText_char e (by decide)
  exact ⟨hcaret.append (isText_regexEscapeLiteral hs), parse_starts s⟩

theorem reads_ends (hs : e.IsText s) :
    Reads e (regexEscapeLiteral s ++ ['$']) [Regex.literal s ++ [.textEnd]] :=
  ⟨(isText_regexEscapeLiteral hs).append (isText_char e (by decide)), parse_ends s⟩

theorem reads_inListRegex {m : Str} {members : List Str} (hne : m ≠ [])
    (h : ∀ s ∈ m :: members, e.IsText s) :
    Reads e (inListRegex (m :: members)) ((m :: members).map Regex.literal) := by
  obtain ⟨hm, hmembers⟩ := List.forall_mem_cons.mp h
  rw [inListRegex_cons hne]
  exact ⟨(isText_regexEscapeLiteral hm).append (isText_alternatives hmembers),
    parse_members m members⟩

/-- An escaped text is a pattern for itself alone, whatever the encoding. With an
anchor it finds the lines that start or end with it, and the alternatives of an
`IN` match its members. -/
theorem regexEscapeLiteral_denotes (e : Encoding) :
    (∀ s, e.IsText s →
      (∃ p, Reads e (regexEscapeLiteral s) p ∧ ∀ t, p.Full t ↔ t = s) ∧
      (∃ p, Reads e ('^' :: regexEscapeLiteral s) p ∧ ∀ line, p.Partial line ↔ s <+: line) ∧
      (∃ p, Reads e (regexEscapeLiteral s ++ ['$']) p ∧ ∀ line, p.Partial line ↔ s <:+ line)) ∧
    (∀ members : List Str, members ≠ [] → (∀ m ∈ members, m ≠ [] ∧ e.IsText m) →
      ∃ p, Reads e (inListRegex members) p ∧ ∀ t, p.Full t ↔ t ∈ members) := by
  constructor
  · intro s hs
    refine ⟨⟨_, reads_literal hs, ?_⟩, ⟨_, reads_starts hs, ?_⟩, ⟨_, reads_ends hs, ?_⟩⟩
    · intro t
      have hfull : Regex.Pattern.Full ([s].map Regex.literal) t ↔ t ∈ [s] := Regex.full_literals
      exact hfull.trans List.mem_singleton
    · exact fun line ↦ Regex.partial_starts
    · exact fun line ↦ Regex.partial_ends
  · intro members hne h
    cases members with
    | nil => exact absurd rfl hne
    | cons m members =>
      have hm := (h m List.mem_cons_self).1
      exact ⟨_, reads_inListRegex hm (fun s hs ↦ (h s hs).2), fun t ↦ Regex.full_literals⟩

theorem regexEscapeLiteral_denotes_dotted :
    (∃ p, Reads .utf8 "a\\.b".toList p ∧ ∀ t, p.Full t ↔ t = "a.b".toList) ∧
      (∃ p, Reads .utf8 "^a\\.b".toList p ∧ ∀ line, p.Partial line ↔ "a.b".toList <+: line) ∧
      ∃ p, Reads .utf8 "a\\.b|\\+".toList p ∧
        ∀ t, p.Full t ↔ t ∈ ["a.b".toList, "+".toList] := by
  have hdotted : Encoding.utf8.IsText "a.b".toList := Encoding.isText_ascii _ (by simp)
  have hplus : Encoding.utf8.IsText "+".toList := Encoding.isText_ascii _ (by simp)
  obtain ⟨hliteral, hmembers⟩ := regexEscapeLiteral_denotes .utf8
  obtain ⟨hdenotes, hstarts, _⟩ := hliteral "a.b".toList hdotted
  refine ⟨hdenotes, hstarts, hmembers ["a.b".toList, "+".toList] (List.cons_ne_nil _ _) ?_⟩
  intro m hm
  rcases List.mem_pair.mp hm with rfl | rfl
  · exact ⟨by decide, hdotted⟩
  · exact ⟨by decide, hplus⟩

/-- A byte that is in no UTF-8 text. -/
theorem regexEscapeLiteral_not_utf8 :
    IsBytes ['\xff'] ∧ ¬ ∃ p, Reads .utf8 (regexEscapeLiteral ['\xff']) p := by
  refine ⟨by decide, ?_⟩
  intro ⟨p, htext, _⟩
  have hmem : '\xff' ∈ regexEscapeLiteral ['\xff'] := List.mem_singleton.mpr rfl
  exact Encoding.not_isText_utf8 (by decide) hmem htext

end Literals

end DuckdbLoki
