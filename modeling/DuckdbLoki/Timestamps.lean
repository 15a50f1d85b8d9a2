import DuckdbLoki.Reading.Framing
import DuckdbLoki.StreamsResponse

namespace DuckdbLoki

/-- The timestamp a tuple states: its first element is, as a whole, a decimal
integer of 64 bits. -/
def statedTimestamp (tuple : Json) : Option ℤ :=
  match tuple.arrGet 0 with
  | some (.string s) => (readDecimal s).bind checked
  | _ => none

def decimalValue (sign digits : Str) : ℤ :=
  if sign = ['-'] then -(Nat.ofDigitChars 10 digits 0 : ℤ) else Nat.ofDigitChars 10 digits 0

structure Scans (s : Str) (n : ℤ) (spaces sign digits rest : Str) : Prop where
  text : s = spaces ++ (sign ++ (digits ++ rest))
  spaces_all : ∀ c ∈ spaces, isCSpace c = true
  sign_mem : sign = [] ∨ sign = ['-'] ∨ sign = ['+']
  digits_ne : digits ≠ []
  digits_all : ∀ c ∈ digits, c.isDigit = true
  rest_head : ∀ c ∈ rest.head?, c.isDigit = false
  value : decimalValue sign digits = n
  range : InInt64 n

/-- A text with a number in front that is not a decimal integer as a whole:
spaces or a plus sign stand before the digits, or something follows them. -/
def LooseTimestamp (s : Str) : Prop :=
  ∃ n spaces sign digits rest, Scans s n spaces sign digits rest ∧
    (spaces ≠ [] ∨ sign = ['+'] ∨ rest ≠ [])

section Scan

variable {s spaces sign digits rest : Str} {n : ℤ}

theorem signedDigits_append (hsign : sign = [] ∨ sign = ['-'] ∨ sign = ['+'])
    (hne : digits ≠ []) (hdigits : ∀ c ∈ digits, c.isDigit = true)
    (hrest : ∀ c ∈ rest.head?, c.isDigit = false) :
    signedDigits (sign ++ (digits ++ rest)) = (decide (sign = ['-']), digits) := by
  have htake : (digits ++ rest).takeWhile Char.isDigit = digits :=
    Framing.takeWhile_append hdigits hrest
  rcases hsign with hsign | hsign | hsign
  · obtain ⟨d, ds, hcons⟩ := List.exists_cons_of_ne_nil hne
    have hd : d.isDigit = true := hdigits d (hcons ▸ List.mem_cons_self)
    rw [hsign, List.nil_append]
    rw [hcons, List.cons_append] at htake ⊢
    rw [signedDigits_of_isDigit hd, htake]
    rfl
  · rw [hsign]
    exact congrArg (Prod.mk true) htake
  · rw [hsign]
    exact congrArg (Prod.mk false) htake

theorem Scans.stoll (h : Scans s n spaces sign digits rest) : stoll s = some n := by
  have hhead : (sign ++ (digits ++ rest)).dropWhile isCSpace = sign ++ (digits ++ rest) := by
    obtain ⟨d, ds, hcons⟩ := List.exists_cons_of_ne_nil h.digits_ne
    have hd : isCSpace d = false :=
      isCSpace_of_isDigit (h.digits_all d (hcons ▸ List.mem_cons_self))
    rcases h.sign_mem with hsign | hsign | hsign
    · rw [hsign, hcons]
      exact List.dropWhile_cons_of_neg (by rw [hd]; exact Bool.false_ne_true)
    · rw [hsign]
      exact List.dropWhile_cons_of_neg (by decide)
    · rw [hsign]
      exact List.dropWhile_cons_of_neg (by decide)
  unfold DuckdbLoki.stoll
  rw [h.text, List.dropWhile_append_of_pos h.spaces_all, hhead,
    signedDigits_append h.sign_mem h.digits_ne h.digits_all h.rest_head]
  dsimp only
  rw [if_neg h.digits_ne, checked_eq_some]
  have hvalue := h.value
  unfold decimalValue at hvalue
  simp only [decide_eq_true_eq]
  rw [hvalue]
  exact ⟨h.range, rfl⟩

theorem signedDigits_split (t : Str) : ∃ sign rest,
    (sign = [] ∨ sign = ['-'] ∨ sign = ['+']) ∧ t = sign ++ ((signedDigits t).2 ++ rest) ∧
      (signedDigits t).1 = decide (sign = ['-']) ∧ (∀ c ∈ (signedDigits t).2, c.isDigit = true) ∧
      ∀ c ∈ rest.head?, c.isDigit = false := by
  have hpre : ∀ u : Str, (∀ c ∈ u.takeWhile Char.isDigit, c.isDigit = true) ∧
      (∀ c ∈ (u.dropWhile Char.isDigit).head?, c.isDigit = false) ∧
      u = u.takeWhile Char.isDigit ++ u.dropWhile Char.isDigit := by
    intro u
    refine ⟨fun c hc ↦ List.mem_takeWhile_imp hc, ?_, List.takeWhile_append_dropWhile.symm⟩
    intro c hc
    have hhead := List.head?_dropWhile_not Char.isDigit u
    rw [Option.mem_def.mp hc] at hhead
    exact hhead
  unfold signedDigits
  split
  · rename_i u
    obtain ⟨hdigits, hrest, htext⟩ := hpre u
    exact ⟨['-'], _, Or.inr (Or.inl rfl), congrArg (List.cons '-') htext, rfl, hdigits, hrest⟩
  · rename_i u
    obtain ⟨hdigits, hrest, htext⟩ := hpre u
    exact ⟨['+'], _, Or.inr (Or.inr rfl), congrArg (List.cons '+') htext, rfl, hdigits, hrest⟩
  · obtain ⟨hdigits, hrest, htext⟩ := hpre t
    exact ⟨[], _, Or.inl rfl, htext, rfl, hdigits, hrest⟩

theorem scans_of_stoll (h : stoll s = some n) :
    ∃ spaces sign digits rest, Scans s n spaces sign digits rest := by
  unfold stoll at h
  obtain ⟨sign, rest, hsign, htext, hnegative, hdigits, hrest⟩ :=
    signedDigits_split (s.dropWhile isCSpace)
  obtain ⟨hne, hvalue⟩ : (signedDigits (s.dropWhile isCSpace)).2 ≠ [] ∧
      checked (decimalValue sign (signedDigits (s.dropWhile isCSpace)).2) = some n := by
    dsimp only at h
    split_ifs at h with hnil hneg
    · rw [hnegative, decide_eq_true_eq] at hneg
      rw [decimalValue, if_pos hneg]
      exact ⟨hnil, h⟩
    · rw [hnegative, decide_eq_true_eq] at hneg
      rw [decimalValue, if_neg hneg]
      exact ⟨hnil, h⟩
  obtain ⟨hrange, heq⟩ := checked_eq_some.mp hvalue
  refine ⟨s.takeWhile isCSpace, sign, _, rest, ?_, fun c hc ↦ List.mem_takeWhile_imp hc, hsign,
    hne, hdigits, hrest, heq, heq ▸ hrange⟩
  rw [← htext]
  exact List.takeWhile_append_dropWhile.symm

end Scan

section Decimal

variable {s spaces sign digits rest : Str} {n : ℤ}

theorem readDecimal_digits (hne : digits ≠ []) (hdigits : ∀ c ∈ digits, c.isDigit = true)
    (hsign : sign = [] ∨ sign = ['-']) :
    readDecimal (sign ++ digits) = some (decimalValue sign digits) := by
  have hread := readDigits_eq_some.mpr ⟨hne, hdigits, rfl⟩
  rcases hsign with hsign | hsign
  · rw [hsign, List.nil_append]
    unfold readDecimal
    split
    · exact absurd (hdigits '-' List.mem_cons_self) (by decide)
    · rw [hread]
      rfl
  · rw [hsign]
    change (readDigits digits).map (fun n : ℕ ↦ -(n : ℤ)) = _
    rw [hread]
    rfl

theorem readDecimal_split (h : readDecimal s = some n) :
    ∃ sign digits, s = sign ++ digits ∧ (sign = [] ∨ sign = ['-']) ∧ digits ≠ [] ∧
      (∀ c ∈ digits, c.isDigit = true) ∧ decimalValue sign digits = n := by
  unfold readDecimal at h
  split at h
  · rename_i u
    obtain ⟨k, hk, hn⟩ := Option.map_eq_some_iff.mp h
    obtain ⟨hne, hdigits, hvalue⟩ := readDigits_eq_some.mp hk
    refine ⟨['-'], u, rfl, Or.inr rfl, hne, hdigits, ?_⟩
    rw [decimalValue, if_pos rfl, hvalue, hn]
  · obtain ⟨k, hk, hn⟩ := Option.map_eq_some_iff.mp h
    obtain ⟨hne, hdigits, hvalue⟩ := readDigits_eq_some.mp hk
    refine ⟨[], s, rfl, Or.inl rfl, hne, hdigits, ?_⟩
    rw [decimalValue, if_neg (List.cons_ne_nil _ _).symm, hvalue, hn]

theorem Scans.rest_eq_nil (h : Scans s n spaces sign digits rest)
    (hall : ∀ c ∈ digits ++ rest, c.isDigit = true) : rest = [] := by
  cases rest with
  | nil => rfl
  | cons c rest =>
    have hdigit := hall c (List.mem_append_right _ List.mem_cons_self)
    rw [h.rest_head c rfl] at hdigit
    cases hdigit

theorem decimal_head (hsign : sign = [] ∨ sign = ['-']) (hdigits : ∀ c ∈ digits, c.isDigit = true)
    {c : Char} {t : Str} (h : c :: t = sign ++ digits) : c = '-' ∨ c.isDigit = true := by
  rcases hsign with hsign | hsign
  · rw [hsign, List.nil_append] at h
    exact Or.inr (hdigits c (h ▸ List.mem_cons_self))
  · rw [hsign] at h
    exact Or.inl (List.cons.inj h).1

theorem LooseTimestamp.readDecimal (h : LooseTimestamp s) : readDecimal s = none := by
  obtain ⟨n, spaces, sign, digits, rest, hscan, hloose⟩ := h
  rw [Option.eq_none_iff_forall_ne_some]
  intro m hm
  obtain ⟨sign', digits', htext, hsign', hne', hdigits', _⟩ := readDecimal_split hm
  rw [hscan.text] at htext
  obtain ⟨d, ds, hcons⟩ := List.exists_cons_of_ne_nil hscan.digits_ne
  have hd : d.isDigit = true := hscan.digits_all d (hcons ▸ List.mem_cons_self)
  cases spaces with
  | cons c spaces =>
    have hspace : isCSpace c = true := hscan.spaces_all c List.mem_cons_self
    rcases decimal_head hsign' hdigits' htext with hc | hc
    · rw [hc] at hspace
      exact absurd hspace (by decide)
    · rw [isCSpace_of_isDigit hc] at hspace
      cases hspace
  | nil =>
    rw [List.nil_append] at htext
    have hrest : sign ≠ ['+'] → ¬ ∀ c ∈ digits ++ rest, c.isDigit = true := by
      intro hplus hall
      rcases hloose with hspaces | hplus' | hrest
      · exact hspaces rfl
      · exact hplus hplus'
      · exact hrest (hscan.rest_eq_nil hall)
    rcases hscan.sign_mem with hsign | hsign | hsign
    · rw [hsign, List.nil_append] at htext
      rcases hsign' with hsign' | hsign'
      · rw [hsign', List.nil_append] at htext
        exact hrest (by rw [hsign]; decide) (htext ▸ hdigits')
      · rw [hsign', hcons] at htext
        exact ne_of_isDigit hd (by decide) (List.cons.inj htext).1
    · rw [hsign] at htext
      rcases hsign' with hsign' | hsign'
      · rw [hsign', List.nil_append] at htext
        have hmem : '-' ∈ digits' := htext ▸ List.mem_cons_self
        exact absurd (hdigits' _ hmem) (by decide)
      · rw [hsign'] at htext
        have hall : digits ++ rest = digits' := (List.cons.inj htext).2
        exact hrest (by rw [hsign]; decide) (hall ▸ hdigits')
    · rw [hsign] at htext
      rcases decimal_head hsign' hdigits' htext with hc | hc
      · exact absurd hc (by decide)
      · exact absurd hc (by decide)

theorem Scans.readDecimal (h : Scans s n [] sign digits []) (hplus : sign ≠ ['+']) :
    readDecimal s = some n := by
  have hsign : sign = [] ∨ sign = ['-'] := by
    rcases h.sign_mem with hsign | hsign | hsign
    · exact Or.inl hsign
    · exact Or.inr hsign
    · exact absurd hsign hplus
  rw [h.text, List.nil_append, List.append_nil,
    readDecimal_digits h.digits_ne h.digits_all hsign, h.value]

theorem stoll_eq_iff : stoll s = (readDecimal s).bind checked ↔ ¬ LooseTimestamp s := by
  constructor
  · intro h hloose
    obtain ⟨n, spaces, sign, digits, rest, hscan, _⟩ := id hloose
    rw [hscan.stoll, hloose.readDecimal] at h
    cases h
  · intro hloose
    cases hn : stoll s with
    | some n =>
      obtain ⟨spaces, sign, digits, rest, hscan⟩ := scans_of_stoll hn
      obtain ⟨hspaces, hplus, hrest⟩ : spaces = [] ∧ sign ≠ ['+'] ∧ rest = [] := by
        by_contra hnot
        apply hloose
        refine ⟨n, spaces, sign, digits, rest, hscan, ?_⟩
        by_contra hstrict
        rw [not_or, not_or, not_not, not_not] at hstrict
        exact hnot hstrict
      rw [hspaces, hrest] at hscan
      rw [hscan.readDecimal hplus, Option.bind_some, checked_of_inInt64 hscan.range]
    | none =>
      symm
      rw [Option.eq_none_iff_forall_ne_some]
      intro m hm
      obtain ⟨n, hread, hrange⟩ := Option.bind_eq_some_iff.mp hm
      obtain ⟨sign, digits, htext, hsign, hne, hdigits, hvalue⟩ := readDecimal_split hread
      have hscan : Scans s n [] sign digits [] := by
        refine ⟨?_, nofun, hsign.imp_right Or.inl, hne, hdigits, nofun, hvalue,
          (checked_eq_some.mp hrange).1⟩
        rw [List.append_nil]
        exact htext
      rw [hscan.stoll] at hn
      cases hn

end Decimal

section Tuples

variable {s spaces sign digits rest : Str} {n : ℤ}

theorem cString_append {a b : Str} (h : '\x00' ∉ a) : cString (a ++ b) = a ++ cString b := by
  apply List.takeWhile_append_of_pos
  intro c hc
  apply decide_eq_true
  intro hzero
  exact h (hzero ▸ hc)

theorem Scans.cString (h : Scans s n spaces sign digits rest) :
    Scans (cString s) n spaces sign digits (cString rest) := by
  refine ⟨?_, h.spaces_all, h.sign_mem, h.digits_ne, h.digits_all, ?_, h.value, h.range⟩
  · have hspaces : '\x00' ∉ spaces := fun hmem ↦ absurd (h.spaces_all _ hmem) (by decide)
    have hdigits : '\x00' ∉ digits := fun hmem ↦ absurd (h.digits_all _ hmem) (by decide)
    have hsign : '\x00' ∉ sign := by
      rcases h.sign_mem with hsign | hsign | hsign
      · exact hsign ▸ List.not_mem_nil
      · exact hsign ▸ by decide
      · exact hsign ▸ by decide
    rw [h.text, cString_append hspaces, cString_append hsign, cString_append hdigits]
  · intro c hc
    cases rest with
    | nil => cases hc
    | cons d rest =>
      unfold DuckdbLoki.cString at hc
      rw [List.takeWhile_cons] at hc
      split_ifs at hc
      · exact h.rest_head c hc
      · cases hc

theorem Scans.of_cString (h : Scans (DuckdbLoki.cString s) n spaces sign digits rest) :
    ∃ tail, Scans s n spaces sign digits (rest ++ tail) := by
  refine ⟨s.dropWhile (· ≠ '\x00'), ?_, h.spaces_all, h.sign_mem, h.digits_ne, h.digits_all, ?_,
    h.value, h.range⟩
  · have hsplit : DuckdbLoki.cString s ++ s.dropWhile (· ≠ '\x00') = s :=
      List.takeWhile_append_dropWhile
    rw [h.text] at hsplit
    simpa only [List.append_assoc] using hsplit.symm
  · intro c hc
    cases rest with
    | nil =>
      have hhead := List.head?_dropWhile_not (· ≠ '\x00') s
      rw [show (s.dropWhile (· ≠ '\x00')).head? = some c from hc] at hhead
      have hzero : c = '\x00' := by simpa using hhead
      rw [hzero]
      rfl
    | cons d rest => exact h.rest_head c hc

/-- A NUL ends the number, where it does not end the text. -/
theorem stoll_cString (s : Str) : stoll (cString s) = stoll s := by
  apply Option.ext
  intro n
  constructor
  · intro h
    obtain ⟨spaces, sign, digits, rest, hscan⟩ := scans_of_stoll h
    obtain ⟨tail, hscan⟩ := hscan.of_cString
    exact hscan.stoll
  · intro h
    obtain ⟨spaces, sign, digits, rest, hscan⟩ := scans_of_stoll h
    exact hscan.cString.stoll

theorem map_tsNs_parseEntry (tuple : Json) : (parseEntry tuple).map StreamEntry.tsNs =
    ((tuple.arrGet 0).bind Json.getStr).bind stoll := by
  unfold parseEntry
  cases (tuple.arrGet 0).bind Json.getStr with
  | none => rfl
  | some ts =>
    dsimp only
    rw [Option.map_map, Option.bind_some]
    exact Option.map_id'

def HasLooseTimestamp (tuple : Json) : Prop :=
  ∃ s, tuple.arrGet 0 = some (.string s) ∧ LooseTimestamp s

theorem parseEntry_stated_iff (tuple : Json) :
    (parseEntry tuple).map StreamEntry.tsNs = statedTimestamp tuple ↔
      ¬ HasLooseTimestamp tuple := by
  rw [map_tsNs_parseEntry, statedTimestamp]
  unfold HasLooseTimestamp
  cases tuple.arrGet 0 with
  | none => exact iff_of_true rfl nofun
  | some v =>
    cases v with
    | string s =>
      have hex : (∃ t, some (Json.string s) = some (.string t) ∧ LooseTimestamp t) ↔
          LooseTimestamp s := by
        constructor
        · intro h
          obtain ⟨t, ht, hloose⟩ := h
          exact Json.string.inj (Option.some.inj ht) ▸ hloose
        · exact fun hloose ↦ ⟨s, rfl, hloose⟩
      rw [hex, ← stoll_eq_iff]
      change stoll (cString s) = _ ↔ _
      rw [stoll_cString]
    | _ => exact iff_of_true rfl nofun

/-- In every streams document each tuple makes an entry with the timestamp it
states and no other, exactly when no tuple has a loose timestamp. -/
theorem parseStreamsResponse_stated_iff {read : Str → Option Json} {body : Str} {root data : Json}
    (hread : read body = some root) (hdata : root.objGet "data".toList = some data)
    (htype : (data.objGet "resultType".toList).bind Json.getStr = some "streams".toList) :
    (∃ chunks, parseStreamsResponse read body = .ok chunks ∧
      chunks.map StreamChunk.values =
        (resultOf data).map (fun elem ↦ (valuesOf elem).filterMap parseEntry) ∧
      ∀ elem ∈ resultOf data, ∀ tuple ∈ valuesOf elem, ∀ n,
        (∃ e, parseEntry tuple = some e ∧ e.tsNs = n) ↔ statedTimestamp tuple = some n) ↔
    ∀ elem ∈ resultOf data, ∀ tuple ∈ valuesOf elem, ¬ HasLooseTimestamp tuple := by
  have htuple : ∀ tuple, (∀ n, (∃ e, parseEntry tuple = some e ∧ e.tsNs = n) ↔
      statedTimestamp tuple = some n) ↔ ¬ HasLooseTimestamp tuple := by
    intro tuple
    rw [← parseEntry_stated_iff]
    constructor
    · intro h
      apply Option.ext
      intro n
      rw [Option.map_eq_some_iff]
      exact h n
    · intro h n
      rw [← h, Option.map_eq_some_iff]
  constructor
  · intro h elem helem tuple hmem
    obtain ⟨_, _, _, hstated⟩ := h
    exact (htuple tuple).mp (hstated elem helem tuple hmem)
  · intro h
    refine ⟨_, parseStreamsResponse_streams hread hdata htype, ?_, ?_⟩
    · rw [List.map_map]
      rfl
    · intro elem helem tuple hmem
      exact (htuple tuple).mpr (h elem helem tuple hmem)

theorem parseStreamsResponse_stated_bell :
    let root := renderStreams [sampleChunk "up\x07".toList]
    ∃ data, root.objGet "data".toList = some data ∧
      ∀ elem ∈ resultOf data, ∀ tuple ∈ valuesOf elem, ∀ n,
        (∃ e, parseEntry tuple = some e ∧ e.tsNs = n) ↔ statedTimestamp tuple = some n := by
  intro root
  have hread : sampleRead "up\\u0007" "up\x07".toList (sampleBody "up\\u0007") = some root :=
    if_pos rfl
  refine ⟨_, rfl, ?_⟩
  obtain ⟨_, _, _, hstated⟩ := (parseStreamsResponse_stated_iff hread rfl (by decide)).mpr (by
    intro elem helem tuple htuple
    obtain rfl := List.mem_singleton.mp helem
    obtain rfl := List.mem_singleton.mp htuple
    apply (parseEntry_stated_iff _).mp
    decide)
  exact hstated

def fractionTuple : Json := .array [.string "12.5".toList, .string "x".toList]

def fractionBody : Str :=
  ("\x7b\"data\":\x7b\"resultType\":\"streams\",\"result\":[\x7b\"stream\":\x7b\x7d," ++
    "\"values\":[[\"12.5\",\"x\"]]\x7d]\x7d\x7d").toList

def fractionRead (body : Str) : Option Json :=
  if body = fractionBody then
    some (.object [("data".toList, .object [("resultType".toList, .string "streams".toList),
      ("result".toList, .array [.object [("stream".toList, .object []),
        ("values".toList, .array [fractionTuple])]])])])
  else none

/-- A fraction is cut to the digits before its point. -/
theorem parseStreamsResponse_fraction :
    parseStreamsResponse fractionRead fractionBody =
        .ok [⟨.empty, [⟨12, "x".toList, .empty⟩]⟩] ∧
      parseEntry fractionTuple = some ⟨12, "x".toList, .empty⟩ ∧
      statedTimestamp fractionTuple = none := by
  refine ⟨?_, rfl, rfl⟩
  have hread : fractionRead fractionBody = some _ := if_pos rfl
  rw [parseStreamsResponse_streams hread rfl rfl]
  rfl

end Tuples

end DuckdbLoki
