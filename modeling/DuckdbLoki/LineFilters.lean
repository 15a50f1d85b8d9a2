import DuckdbLoki.Scan

namespace DuckdbLoki

section Like

theorem like_wildcard (p s : Str) : like ('%' :: p) s = s.tails.any (like p) := by
  rw [like.eq_def]
  rfl

theorem like_char {c : Char} (h₁ : c ≠ '%') (h₂ : c ≠ '_') (p s : Str) :
    like (c :: p) s = true ↔ ∃ t, s = c :: t ∧ like p t = true := by
  rw [like.eq_def]
  dsimp only
  rw [if_neg h₁]
  cases s with
  | nil => simp
  | cons d s =>
    simp only [h₂, decide_false, Bool.false_or, Bool.and_eq_true, decide_eq_true_eq,
      List.cons.injEq]
    constructor
    · rintro ⟨rfl, h⟩
      exact ⟨s, ⟨rfl, rfl⟩, h⟩
    · rintro ⟨t, ⟨rfl, rfl⟩, h⟩
      exact ⟨rfl, h⟩

theorem like_literal {m : Str} (hm : ∀ c ∈ m, c ≠ '%' ∧ c ≠ '_') (p s : Str) :
    like (m ++ p) s = true ↔ ∃ t, s = m ++ t ∧ like p t = true := by
  induction m generalizing s with
  | nil => simp
  | cons c m ih =>
    obtain ⟨h₁, h₂⟩ := hm c List.mem_cons_self
    have ih := ih (fun d hd ↦ hm d (List.mem_cons_of_mem _ hd))
    rw [List.cons_append, like_char h₁ h₂]
    constructor
    · rintro ⟨t, rfl, h⟩
      obtain ⟨u, rfl, hu⟩ := (ih t).mp h
      exact ⟨u, rfl, hu⟩
    · rintro ⟨u, rfl, hu⟩
      exact ⟨m ++ u, rfl, (ih _).mpr ⟨u, rfl, hu⟩⟩

theorem like_any (s : Str) : like ['%'] s = true := by
  rw [like_wildcard, List.any_eq_true]
  exact ⟨[], (List.mem_tails _ _).mpr (List.nil_suffix), rfl⟩

theorem tryLikeToSubstring_eq_some {pattern m : Str} (h : tryLikeToSubstring pattern = some m) :
    (∀ c ∈ m, c ≠ '%' ∧ c ≠ '_') ∧ pattern = '%' :: (m ++ ['%']) := by
  unfold tryLikeToSubstring at h
  dsimp only at h
  split_ifs at h with hshape hwild
  obtain ⟨hlen, hhead, hlast⟩ := by simpa only [not_or, not_not] using hshape
  have hm := Option.some.inj h
  cases pattern with
  | nil => cases hhead
  | cons c p =>
    obtain rfl : c = '%' := by simpa using hhead
    rw [List.drop_one, List.tail_cons] at hm hwild
    have hne : p ≠ [] := by
      rintro rfl
      simp at hlen
    have hp : p = p.take ((('%' :: p : Str)).length - 2) ++ ['%'] := by
      have h₁ := List.dropLast_append_getLast hne
      have h₂ : p.getLast hne = '%' := by
        rw [List.getLast?_cons_of_ne_nil hne, List.getLast?_eq_some_getLast hne] at hlast
        exact Option.some.inj hlast
      rw [h₂, List.dropLast_eq_take] at h₁
      rw [List.length_cons, show p.length + 1 - 2 = p.length - 1 by omega]
      exact h₁.symm
    rw [hm] at hp hwild
    refine ⟨fun c hc ↦ ?_, by rw [← hp]⟩
    simp only [List.any_eq_true, Bool.or_eq_true, decide_eq_true_eq, not_exists, not_and,
      not_or] at hwild
    exact hwild c hc

theorem tryLikeToSubstring_brackets {m : Str} (hne : m ≠ []) (hm : ∀ c ∈ m, c ≠ '%' ∧ c ≠ '_') :
    tryLikeToSubstring ('%' :: (m ++ ['%'])) = some m := by
  have hlen : ('%' :: (m ++ ['%'])).length = m.length + 2 := by
    rw [List.length_cons, List.length_append, List.length_singleton]
  have hpos := List.length_pos_iff.mpr hne
  have hlast : ('%' :: (m ++ ['%'])).getLast? = some '%' := by
    rw [← List.cons_append, List.getLast?_concat]
  have hmiddle : (('%' :: (m ++ ['%'])).drop 1).take (('%' :: (m ++ ['%'])).length - 2) = m := by
    rw [hlen, List.drop_one, List.tail_cons]
    exact List.take_left' rfl
  unfold tryLikeToSubstring
  dsimp only
  rw [hmiddle, if_neg, if_neg]
  · rw [List.any_eq_true]
    intro ⟨c, hc, hwild⟩
    rw [Bool.or_eq_true, decide_eq_true_eq, decide_eq_true_eq] at hwild
    exact hwild.elim (hm c hc).1 (hm c hc).2
  · rw [hlast, not_or, not_or, hlen, not_not, not_not]
    exact ⟨by omega, rfl, rfl⟩

theorem tryLikeToSubstring_ne_nil {pattern m : Str} (h : tryLikeToSubstring pattern = some m) :
    m ≠ [] := by
  have hpattern := (tryLikeToSubstring_eq_some h).2
  unfold tryLikeToSubstring at h
  dsimp only at h
  split_ifs at h with hshape
  rw [not_or, not_lt, hpattern] at hshape
  intro hnil
  rw [hnil] at hshape
  exact absurd hshape.1 (by decide)

theorem tryLikeToSubstring_sound {pattern m : Str} (h : tryLikeToSubstring pattern = some m)
    (s : Str) : like pattern s = true ↔ m <:+: s := by
  obtain ⟨hm, rfl⟩ := tryLikeToSubstring_eq_some h
  rw [like_wildcard, List.any_eq_true]
  constructor
  · rintro ⟨t, ht, hlike⟩
    obtain ⟨pre, rfl⟩ := (List.mem_tails _ _).mp ht
    obtain ⟨post, rfl, _⟩ := (like_literal hm _ _).mp hlike
    exact ⟨pre, post, (List.append_assoc ..)⟩
  · rintro ⟨pre, post, rfl⟩
    refine ⟨m ++ post, (List.mem_tails _ _).mpr ⟨pre, (List.append_assoc ..).symm⟩, ?_⟩
    exact (like_literal hm _ _).mpr ⟨post, rfl, like_any post⟩

/-- Exactly the patterns `%s%` without another wildcard are taken, and `LIKE`
on such a pattern asks whether the line contains `s`. -/
theorem tryLikeToSubstring_lossless :
    (∀ pattern m, tryLikeToSubstring pattern = some m →
      ∀ line, like pattern line = true ↔ m <:+: line) ∧
    (∀ pattern m, tryLikeToSubstring pattern = some m ↔
      pattern = '%' :: (m ++ ['%']) ∧ m ≠ [] ∧ ∀ c ∈ m, c ≠ '%' ∧ c ≠ '_') := by
  refine ⟨fun pattern m h line ↦ tryLikeToSubstring_sound h line, fun pattern m ↦ ⟨?_, ?_⟩⟩
  · intro h
    obtain ⟨hm, hpattern⟩ := tryLikeToSubstring_eq_some h
    exact ⟨hpattern, tryLikeToSubstring_ne_nil h, hm⟩
  · intro ⟨hpattern, hne, hm⟩
    rw [hpattern]
    exact tryLikeToSubstring_brackets hne hm

end Like

section Filters

variable {db : Database}

theorem negateLineOp_accepts (engine : Regex.Engine) (f : LineFilter) (line : Str) :
    LineFilter.accepts engine ⟨negateLineOp f.op, f.value⟩ line = !f.accepts engine line := by
  cases h : f.op <;> simp [negateLineOp, LineFilter.accepts, h]

theorem lineFilterOf_accepts (he : db.regex.Lawful) {fname pattern : Str}
    (hf : fname ∈ lineFunctions) {f : LineFilter} (h : lineFilterOf fname pattern = some f)
    (line : Str) :
    lineTest db fname line pattern = some (xor (f.accepts db.regex line) (fname = "!~~".toList)) := by
  have hlike : ∀ m, tryLikeToSubstring pattern = some m →
      like pattern line = decide (m <:+: line) :=
    fun m hm ↦ Bool.eq_iff_iff.mpr (by rw [tryLikeToSubstring_sound hm, decide_eq_true_iff])
  simp only [lineFunctions, List.mem_cons, List.not_mem_nil, or_false] at hf
  rcases hf with rfl | rfl | rfl | rfl | rfl | rfl
  · obtain ⟨m, hm, rfl⟩ := Option.map_eq_some_iff.mp
      (show (tryLikeToSubstring pattern).map (⟨.contains, ·⟩) = some f from h)
    change some (like pattern line) = some (xor (decide (m <:+: line)) false)
    rw [hlike m hm, Bool.xor_false]
  · obtain ⟨m, hm, rfl⟩ := Option.map_eq_some_iff.mp
      (show (tryLikeToSubstring pattern).map (⟨.contains, ·⟩) = some f from h)
    change some (!like pattern line) = some (xor (decide (m <:+: line)) true)
    rw [hlike m hm, Bool.xor_true]
  · obtain rfl : (⟨.matches, pattern⟩ : LineFilter) = f := Option.some.inj h
    change some (db.regex.partialMatch pattern line) = some (xor _ false)
    rw [Bool.xor_false]
    rfl
  · obtain rfl : (⟨.contains, pattern⟩ : LineFilter) = f := Option.some.inj h
    change some (decide (pattern <:+: line)) = some (xor _ false)
    rw [Bool.xor_false]
    rfl
  · obtain rfl : (⟨.matches, '^' :: regexEscapeLiteral pattern⟩ : LineFilter) = f :=
      Option.some.inj h
    have hmatch : db.regex.partialMatch ('^' :: regexEscapeLiteral pattern) line =
        decide (pattern <+: line) :=
      Bool.eq_iff_iff.mpr (by rw [partialMatch_starts he, decide_eq_true_iff])
    change some (decide (pattern <+: line)) = some (xor (db.regex.partialMatch _ line) false)
    rw [hmatch, Bool.xor_false]
  · obtain rfl : (⟨.matches, regexEscapeLiteral pattern ++ ['$']⟩ : LineFilter) = f :=
      Option.some.inj h
    have hmatch : db.regex.partialMatch (regexEscapeLiteral pattern ++ ['$']) line =
        decide (pattern <:+ line) :=
      Bool.eq_iff_iff.mpr (by rw [partialMatch_ends he, decide_eq_true_iff])
    change some (decide (pattern <:+ line)) = some (xor (db.regex.partialMatch _ line) false)
    rw [hmatch, Bool.xor_false]

end Filters

end DuckdbLoki
