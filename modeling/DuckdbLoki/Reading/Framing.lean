import Mathlib.Data.List.DropRight
import Mathlib.Data.List.Induction
import Mathlib.Tactic.Common

namespace Framing

variable {α : Type}

def frames (sep mid : α) (pairs : List (List α × List α)) : List α :=
  pairs.flatMap (fun l ↦ sep :: l.1 ++ mid :: l.2)

section Cut

variable {c : α} {a b x y : List α}

theorem cut_left (ha : c ∉ a) (hb : c ∉ b) (h : a ++ c :: x = b ++ c :: y) : a = b ∧ x = y := by
  induction a generalizing b with
  | nil =>
    cases b with
    | nil => exact ⟨rfl, (List.cons.inj h).2⟩
    | cons d b => exact absurd (List.cons.inj h).1 (List.ne_of_not_mem_cons hb)
  | cons d a ih =>
    cases b with
    | nil => exact absurd (List.cons.inj h).1.symm (List.ne_of_not_mem_cons ha)
    | cons e b =>
      obtain ⟨hd, htail⟩ := List.cons.inj h
      obtain ⟨hab, hxy⟩ := ih (List.not_mem_of_not_mem_cons ha) (List.not_mem_of_not_mem_cons hb)
        htail
      exact ⟨by rw [hd, hab], hxy⟩

theorem cut_right (hx : c ∉ x) (hy : c ∉ y) (h : a ++ c :: x = b ++ c :: y) :
    a = b ∧ x = y := by
  have hreverse : x.reverse ++ c :: a.reverse = y.reverse ++ c :: b.reverse := by
    have heq := congrArg List.reverse h
    simpa only [List.reverse_append, List.reverse_cons, List.append_assoc,
      List.singleton_append] using heq
  obtain ⟨hxy, hab⟩ := cut_left (mt List.mem_reverse.mp hx) (mt List.mem_reverse.mp hy) hreverse
  exact ⟨List.reverse_inj.mp hab, List.reverse_inj.mp hxy⟩

theorem exists_last (h : c ∈ a) : ∃ x y, a = x ++ c :: y ∧ c ∉ y := by
  obtain ⟨y, x, hreverse, hy⟩ := List.eq_append_cons_of_mem (List.mem_reverse.mpr h)
  refine ⟨x.reverse, y.reverse, ?_, mt List.mem_reverse.mp hy⟩
  rw [← List.reverse_reverse a, hreverse]
  simp

theorem suffix_of_last (hx : c ∉ x) (h : a ++ c :: x = b ++ c :: y) : x <:+ y := by
  rcases List.append_eq_append_iff.mp h with ⟨t, _, ht⟩ | ⟨t, _, ht⟩
  · cases t with
    | nil => exact (List.cons.inj ht).2 ▸ List.suffix_rfl
    | cons d t =>
      rw [(List.cons.inj ht).2] at hx
      exact absurd (List.mem_append_right t List.mem_cons_self) hx
  · cases t with
    | nil => exact (List.cons.inj ht).2 ▸ List.suffix_rfl
    | cons d t => exact ⟨t ++ [c], by rw [(List.cons.inj ht).2]; simp⟩

end Cut

section Stretches

variable {p : α → Bool} {a b c : List α}

theorem takeWhile_append (ha : ∀ x ∈ a, p x = true) (hb : ∀ x ∈ b.head?, p x = false) :
    (a ++ b).takeWhile p = a := by
  rw [List.takeWhile_append_of_pos ha]
  cases b with
  | nil => exact List.append_nil a
  | cons x b =>
    rw [List.takeWhile_cons_of_neg (by rw [hb x rfl]; exact Bool.false_ne_true)]
    exact List.append_nil a

theorem trim_append (ha : ∀ x ∈ a, p x = true) (hc : ∀ x ∈ c, p x = true)
    (hhead : ∀ x ∈ b.head?, p x = false) (hlast : ∀ x ∈ b.getLast?, p x = false) :
    ((a ++ (b ++ c)).dropWhile p).rdropWhile p = b := by
  have hreverse : ∀ x ∈ c.reverse, p x = true := fun x hx ↦ hc x (List.mem_reverse.mp hx)
  rw [List.dropWhile_append_of_pos ha]
  cases b with
  | nil =>
    rw [List.nil_append, List.dropWhile_eq_nil_iff.mpr hc]
    rfl
  | cons x b =>
    rw [List.cons_append, List.dropWhile_cons_of_neg (by rw [hhead x rfl]; exact Bool.false_ne_true),
      ← List.cons_append, List.rdropWhile, List.reverse_append,
      List.dropWhile_append_of_pos hreverse]
    change (x :: b).rdropWhile p = x :: b
    rw [List.rdropWhile_eq_self_iff]
    intro hne
    rw [hlast _ (List.getLast?_eq_some_getLast hne)]
    exact Bool.false_ne_true

end Stretches

section Frames

variable {sep mid : α} {a b : List α} {ps qs : List (List α × List α)}

theorem frames_nil : frames sep mid [] = [] := rfl

theorem frames_cons (l : List α × List α) (ps : List (List α × List α)) :
    frames sep mid (l :: ps) = sep :: (l.1 ++ mid :: (l.2 ++ frames sep mid ps)) := by
  simp [frames]

theorem append_frames_snoc (a : List α) (ps : List (List α × List α)) (l : List α × List α) :
    a ++ frames sep mid (ps ++ [l]) = a ++ frames sep mid ps ++ sep :: l.1 ++ mid :: l.2 := by
  simp [frames]

/-- From the front: the first separator ends the text before the pairs, and the
first one in the middle ends a name. -/
theorem frames_inj_left (ha : sep ∉ a) (hb : sep ∉ b) (hps : ∀ l ∈ ps, mid ∉ l.1 ∧ sep ∉ l.2)
    (hqs : ∀ l ∈ qs, mid ∉ l.1 ∧ sep ∉ l.2)
    (h : a ++ frames sep mid ps = b ++ frames sep mid qs) : a = b ∧ ps = qs := by
  induction ps generalizing a b qs with
  | nil =>
    cases qs with
    | nil => exact ⟨List.append_cancel_right h, rfl⟩
    | cons l qs =>
      rw [frames_cons, frames_nil, List.append_nil] at h
      rw [h] at ha
      exact absurd (List.mem_append_right _ List.mem_cons_self) ha
  | cons k ps ih =>
    cases qs with
    | nil =>
      rw [frames_cons, frames_nil, List.append_nil] at h
      rw [← h] at hb
      exact absurd (List.mem_append_right _ List.mem_cons_self) hb
    | cons l qs =>
      obtain ⟨hk, hps⟩ := List.forall_mem_cons.mp hps
      obtain ⟨hl, hqs⟩ := List.forall_mem_cons.mp hqs
      rw [frames_cons, frames_cons] at h
      obtain ⟨hab, h⟩ := cut_left ha hb h
      obtain ⟨hname, h⟩ := cut_left hk.1 hl.1 h
      obtain ⟨hvalue, htail⟩ := ih hk.2 hl.2 hps hqs h
      exact ⟨hab, by rw [Prod.ext hname hvalue, htail]⟩

/-- From the back: the last separator in the middle starts a value, and the last
one before it a pair. -/
theorem frames_inj_right (ha : mid ∉ a) (hb : mid ∉ b)
    (hps : ∀ l ∈ ps, sep ∉ l.1 ∧ mid ∉ l.2) (hqs : ∀ l ∈ qs, sep ∉ l.1 ∧ mid ∉ l.2)
    (h : a ++ frames sep mid ps = b ++ frames sep mid qs) : a = b ∧ ps = qs := by
  induction ps using List.reverseRecOn generalizing qs with
  | nil =>
    rcases List.eq_nil_or_concat qs with hqs | ⟨qs, l, hqs⟩
    · rw [hqs] at h
      exact ⟨List.append_cancel_right h, hqs.symm⟩
    · rw [hqs, List.concat_eq_append, append_frames_snoc, frames_nil, List.append_nil] at h
      rw [h] at ha
      exact absurd (List.mem_append_right _ List.mem_cons_self) ha
  | append_singleton ps k ih =>
    rcases List.eq_nil_or_concat qs with hqs | ⟨qs', l, hqs'⟩
    · rw [hqs, append_frames_snoc, frames_nil, List.append_nil] at h
      rw [← h] at hb
      exact absurd (List.mem_append_right _ List.mem_cons_self) hb
    · rw [hqs', List.concat_eq_append] at h hqs ⊢
      obtain ⟨hps, hk⟩ := List.forall_mem_append.mp hps
      obtain ⟨hqs, hl⟩ := List.forall_mem_append.mp hqs
      obtain ⟨hk, _⟩ := List.forall_mem_cons.mp hk
      obtain ⟨hl, _⟩ := List.forall_mem_cons.mp hl
      rw [append_frames_snoc, append_frames_snoc] at h
      obtain ⟨h, hvalue⟩ := cut_right hk.2 hl.2 h
      obtain ⟨h, hname⟩ := cut_right hk.1 hl.1 h
      obtain ⟨hab, hinit⟩ := ih hps hqs h
      exact ⟨hab, by rw [hinit, Prod.ext hname hvalue]⟩

end Frames

end Framing
