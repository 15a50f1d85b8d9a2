import Mathlib.Data.List.Nodup
import Mathlib.Data.List.Induction
import Mathlib.Logic.Function.Basic
import Mathlib.Tactic.Common

namespace Publication

section Reap

variable {κ : Type}

/-- Run backwards over a list and erase what nothing else refers to, looked up
in the list as it is by then. -/
def reap (alone : List κ → κ → Bool) : ℕ → List κ → List κ
  | 0, kept => kept
  | i + 1, kept =>
    match kept[i]? with
    | none => reap alone i kept
    | some k => if alone kept k then reap alone i (kept.eraseIdx i) else reap alone i kept

variable {alone : List κ → κ → Bool} {used : κ → Bool} {kept done : List κ}

theorem reap_append
    (h : ∀ l, l.Sublist (kept ++ done) → ∀ k ∈ l, alone l k = !used k) :
    reap alone kept.length (kept ++ done) = kept.filter used ++ done := by
  induction kept using List.reverseRecOn generalizing done with
  | nil => rfl
  | append_singleton kept k ih =>
    have hlast : (kept ++ [k] ++ done)[kept.length]? = some k := by simp
    have halone := h _ (List.Sublist.refl _) k (by simp)
    rw [List.length_append, List.length_singleton, reap, hlast]
    dsimp only
    rw [halone, List.filter_append]
    have hcons : kept ++ [k] ++ done = kept ++ k :: done := by simp
    cases hused : used k with
    | true =>
      have ih := @ih (k :: done) (by rwa [← hcons])
      rw [hcons, List.filter_cons_of_pos hused, Bool.not_true, if_neg Bool.false_ne_true, ih]
      simp
    | false =>
      have hsub : (kept ++ done).Sublist (kept ++ k :: done) :=
        (List.sublist_cons_self k done).append_left kept
      have ih := @ih done (fun l hl ↦ h l (hcons ▸ hl.trans hsub))
      have herase : (kept ++ k :: done).eraseIdx kept.length = kept ++ done := by
        rw [List.eraseIdx_append_of_length_le (Nat.le_refl _), Nat.sub_self, List.eraseIdx_cons_zero]
      rw [hcons, List.filter_cons_of_neg (by simp [hused]), Bool.not_false, if_pos rfl, herase, ih]
      simp

theorem reap_eq_filter (h : ∀ l, l.Sublist kept → ∀ k ∈ l, alone l k = !used k) :
    reap alone kept.length kept = kept.filter used := by
  have hnil : reap alone kept.length (kept ++ []) = kept.filter used ++ [] :=
    reap_append (fun l hl ↦ h l (by rwa [List.append_nil] at hl))
  rwa [List.append_nil, List.append_nil] at hnil

end Reap

structure State (κ ι : Type) where
  current : κ
  retired : List κ
  pins : ι → Option κ

variable {κ ι : Type}

namespace State

variable (s : State κ ι)

def Used (k : κ) : Prop := ∃ i, s.pins i = some k

def Kept (k : κ) : Prop := k = s.current ∨ k ∈ s.retired

structure Sound : Prop where
  nodup : s.retired.Nodup
  current_notMem : s.current ∉ s.retired
  pinned : ∀ i k, s.pins i = some k → s.Kept k

def Reclaimed : Prop :=
  s.retired.Nodup ∧ ∀ k, k ∈ s.retired ↔ k ≠ s.current ∧ s.Used k

end State

variable [DecidableEq ι]

inductive Step : State κ ι → State κ ι → Prop
  | stay (s : State κ ι) : Step s s
  | pin (s : State κ ι) (i : ι) :
      Step s { s with pins := Function.update s.pins i (some s.current) }
  | share (s : State κ ι) {i : ι} {k : κ} (j : ι) :
      s.pins i = some k → Step s { s with pins := Function.update s.pins j (some k) }
  | drop (s : State κ ι) (i : ι) : Step s { s with pins := Function.update s.pins i none }
  | publish (s : State κ ι) {k : κ} {used : κ → Bool} :
      ¬ s.Kept k → (∀ k, used k = true ↔ s.Used k) →
      Step s { s with current := k, retired := (s.retired ++ [s.current]).filter used }

section Sound

variable {s t : State κ ι}

theorem State.Sound.update {pin : Option κ} (hs : s.Sound) (i : ι)
    (hpin : ∀ k, pin = some k → s.Kept k) :
    State.Sound { s with pins := Function.update s.pins i pin } := by
  refine ⟨hs.nodup, hs.current_notMem, ?_⟩
  intro j k hj
  dsimp only at hj
  by_cases heq : j = i
  · rw [heq, Function.update_self] at hj
    exact hpin k hj
  · rw [Function.update_of_ne heq] at hj
    exact hs.pinned j k hj

omit [DecidableEq ι] in
theorem State.Sound.publish (hs : s.Sound) {k : κ} {used : κ → Bool} (hfresh : ¬ s.Kept k)
    (hused : ∀ k, used k = true ↔ s.Used k) :
    let t : State κ ι :=
      { s with current := k, retired := (s.retired ++ [s.current]).filter used }
    t.Sound ∧ t.Reclaimed := by
  have hnodup : (s.retired ++ [s.current]).Nodup := by
    rw [List.nodup_append']
    exact ⟨hs.nodup, List.nodup_singleton _, List.disjoint_singleton.mpr hs.current_notMem⟩
  have hiff : ∀ j, j ∈ (s.retired ++ [s.current]).filter used ↔ s.Kept j ∧ s.Used j := by
    intro j
    rw [List.mem_filter, hused, List.mem_append, List.mem_singleton, State.Kept, or_comm]
  have hused_ne : ∀ j, s.Used j → s.Kept j ∧ j ≠ k := by
    intro j ⟨i, hi⟩
    have hkept := hs.pinned i j hi
    refine ⟨hkept, ?_⟩
    intro heq
    exact hfresh (heq ▸ hkept)
  refine ⟨⟨hnodup.filter _, ?_, ?_⟩, hnodup.filter _, ?_⟩
  · intro hmem
    exact hfresh ((hiff k).mp hmem).1
  · intro i j hj
    right
    exact (hiff j).mpr ⟨hs.pinned i j hj, i, hj⟩
  · intro j
    apply (hiff j).trans
    constructor
    · intro ⟨_, h⟩
      exact ⟨(hused_ne j h).2, h⟩
    · intro ⟨_, h⟩
      exact ⟨(hused_ne j h).1, h⟩

theorem Step.sound (h : Step s t) (hs : s.Sound) : t.Sound := by
  cases h with
  | stay => exact hs
  | pin i =>
    apply hs.update i
    intro k hk
    exact Or.inl (Option.some.inj hk).symm
  | @share i k j hi =>
    apply hs.update j
    intro k' hk
    rw [← Option.some.inj hk]
    exact hs.pinned i k hi
  | drop i =>
    apply hs.update i
    intro k hk
    cases hk
  | publish hfresh hused => exact (hs.publish hfresh hused).1

end Sound

end Publication
