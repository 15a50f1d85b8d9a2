import DuckdbLoki.Regex

namespace Regex

def utf8Bytes (c : Char) : List Char :=
  (String.utf8EncodeChar c).map (fun b ↦ Char.ofNat b.toNat)

/-- How a pattern is encoded. RE2 reads UTF-8 unless it is told to read
Latin-1. -/
inductive Encoding
  | latin1
  | utf8

def Encoding.IsText : Encoding → List Char → Prop
  | .latin1, s => ∀ c ∈ s, c.toNat < 256
  | .utf8, s => ∃ cs : List Char, s = cs.flatMap utf8Bytes

/-- A pattern is read from text alone. The bytes of one character are matched
one after the other. -/
def Reads (e : Encoding) (q : List Char) (p : Pattern) : Prop := e.IsText q ∧ parse q = some p

section Bytes

variable {c d : Char}

theorem utf8Bytes_ascii (h : c.toNat < 128) : utf8Bytes c = [c] := by
  have hsize : c.utf8Size = 1 := Char.utf8Size_eq_one_iff.mpr (UInt32.le_iff_toNat_le.mpr (by
    change c.toNat ≤ 127
    omega))
  have hbyte : c.val.toUInt8.toNat = c.toNat := by
    rw [UInt32.toNat_toUInt8]
    exact Nat.mod_eq_of_lt (show c.toNat < 256 by omega)
  rw [utf8Bytes, String.utf8EncodeChar_eq_singleton hsize, List.map_singleton, hbyte,
    Char.ofNat_toNat]

def IsHighByte (c : Char) : Prop := 128 ≤ c.toNat ∧ c.toNat < 248

theorem isHighByte_ofNat {n : ℕ} (hge : 128 ≤ n) (hlt : n < 248) :
    IsHighByte (Char.ofNat (UInt8.ofNat n).toNat) := by
  have hbyte : (UInt8.ofNat n).toNat = n := by
    rw [UInt8.toNat_ofNat']
    omega
  have hchar : (Char.ofNat n).toNat = n := by
    rw [Char.ofNat, dif_pos (Or.inl (by omega))]
    rfl
  unfold IsHighByte
  rw [hbyte, hchar]
  exact ⟨hge, hlt⟩

theorem utf8Bytes_high (h : 128 ≤ c.toNat) : ∀ d ∈ utf8Bytes c, IsHighByte d := by
  intro d hd
  obtain ⟨b, hb, heq⟩ := List.mem_map.mp hd
  have hvalue : ¬ c.val.toNat ≤ 127 := by
    change ¬ c.toNat ≤ 127
    omega
  rw [← heq]
  unfold String.utf8EncodeChar at hb
  dsimp only at hb
  rw [if_neg hvalue] at hb
  split_ifs at hb
  · simp only [List.mem_cons, List.not_mem_nil, or_false] at hb
    rcases hb with hb | hb
    all_goals
      rw [hb]
      exact isHighByte_ofNat (by omega) (by omega)
  · simp only [List.mem_cons, List.not_mem_nil, or_false] at hb
    rcases hb with hb | hb | hb
    all_goals
      rw [hb]
      exact isHighByte_ofNat (by omega) (by omega)
  · simp only [List.mem_cons, List.not_mem_nil, or_false] at hb
    rcases hb with hb | hb | hb | hb
    all_goals
      rw [hb]
      exact isHighByte_ofNat (by omega) (by omega)

end Bytes

namespace Encoding

variable {e : Encoding} {a b s : List Char} {c : Char}

theorem IsText.append (ha : e.IsText a) (hb : e.IsText b) : e.IsText (a ++ b) := by
  cases e with
  | latin1 =>
    intro c hc
    exact (List.mem_append.mp hc).elim (ha c) (hb c)
  | utf8 =>
    obtain ⟨as, ha⟩ := ha
    obtain ⟨bs, hb⟩ := hb
    exact ⟨as ++ bs, by rw [List.flatMap_append, ha, hb]⟩

theorem isText_nil (e : Encoding) : e.IsText [] := by
  cases e with
  | latin1 => exact nofun
  | utf8 => exact ⟨[], rfl⟩

theorem isText_ascii (e : Encoding) (h : ∀ c ∈ s, c.toNat < 128) : e.IsText s := by
  cases e with
  | latin1 =>
    intro c hc
    have := h c hc
    omega
  | utf8 =>
    refine ⟨s, ?_⟩
    induction s with
    | nil => rfl
    | cons c s ih =>
      obtain ⟨hc, hs⟩ := List.forall_mem_cons.mp h
      rw [List.flatMap_cons, utf8Bytes_ascii hc, ← ih hs]
      rfl

theorem flatMap_other {f : Char → List Char} (hother : ∀ c, 128 ≤ c.toNat → f c = [c])
    (hs : ∀ c ∈ s, 128 ≤ c.toNat) : s.flatMap f = s := by
  induction s with
  | nil => rfl
  | cons c s ih =>
    obtain ⟨hc, hs⟩ := List.forall_mem_cons.mp hs
    rw [List.flatMap_cons, hother c hc, ih hs]
    rfl

/-- Text stays text where each ASCII character is replaced by ASCII. -/
theorem IsText.flatMap {f : Char → List Char} (hs : e.IsText s)
    (hascii : ∀ c, c.toNat < 128 → ∀ d ∈ f c, d.toNat < 128)
    (hother : ∀ c, 128 ≤ c.toNat → f c = [c]) : e.IsText (s.flatMap f) := by
  cases e with
  | latin1 =>
    intro d hd
    obtain ⟨c, hc, hd⟩ := List.mem_flatMap.mp hd
    rcases lt_or_ge c.toNat 128 with hlt | hge
    · have := hascii c hlt d hd
      omega
    · rw [hother c hge, List.mem_singleton] at hd
      exact hd ▸ hs c hc
  | utf8 =>
    obtain ⟨cs, hs⟩ := hs
    rw [hs]
    clear hs
    induction cs with
    | nil => exact isText_nil .utf8
    | cons c cs ih =>
      rw [List.flatMap_cons, List.flatMap_append]
      refine IsText.append ?_ ih
      rcases lt_or_ge c.toNat 128 with hlt | hge
      · rw [utf8Bytes_ascii hlt, List.flatMap_singleton]
        exact isText_ascii .utf8 (hascii c hlt)
      · rw [flatMap_other hother (fun d hd ↦ (utf8Bytes_high hge d hd).1)]
        exact ⟨[c], (List.flatMap_singleton _ _).symm⟩

/-- No byte above `0xF7` is in a UTF-8 text. -/
theorem not_isText_utf8 (hc : 248 ≤ c.toNat) (hmem : c ∈ s) : ¬ Encoding.utf8.IsText s := by
  intro ⟨cs, hs⟩
  rw [hs] at hmem
  obtain ⟨d, _, hd⟩ := List.mem_flatMap.mp hmem
  rcases lt_or_ge d.toNat 128 with hlt | hge
  · rw [utf8Bytes_ascii hlt, List.mem_singleton] at hd
    rw [hd] at hc
    omega
  · have := (utf8Bytes_high hge c hd).2
    omega

end Encoding

end Regex
