import Mathlib.Data.List.Basic
import Mathlib.Order.Lattice
import Mathlib.Tactic.Common

namespace Assoc

variable {κ ν : Type} [LinearOrder κ]

def Sorted (l : List (κ × ν)) : Prop := l.Pairwise (fun a b ↦ a.1 < b.1)

def emplace (k : κ) (v : ν) : List (κ × ν) → List (κ × ν)
  | [] => [(k, v)]
  | p :: l =>
    if k < p.1 then (k, v) :: p :: l
    else if k = p.1 then p :: l
    else p :: emplace k v l

def collectFrom (l ps : List (κ × ν)) : List (κ × ν) := ps.foldl (fun l p ↦ emplace p.1 p.2 l) l

theorem mem_emplace {k : κ} {v : ν} {l : List (κ × ν)} {q : κ × ν} (h : q ∈ emplace k v l) :
    q = (k, v) ∨ q ∈ l := by
  induction l with
  | nil => exact Or.inl (List.mem_singleton.mp h)
  | cons p l ih =>
    unfold emplace at h
    split_ifs at h
    · exact List.mem_cons.mp h
    · exact Or.inr h
    · rcases List.mem_cons.mp h with h | h
      · exact Or.inr (h ▸ List.mem_cons_self)
      · exact (ih h).imp_right (List.mem_cons_of_mem p)

theorem Sorted.emplace {l : List (κ × ν)} (h : Sorted l) (k : κ) (v : ν) :
    Sorted (emplace k v l) := by
  induction l with
  | nil => exact List.pairwise_singleton _ _
  | cons p l ih =>
    obtain ⟨hp, hl⟩ := List.pairwise_cons.mp h
    unfold Assoc.emplace
    split_ifs with hlt heq
    · apply List.pairwise_cons.mpr
      refine ⟨?_, h⟩
      intro q hq
      rcases List.mem_cons.mp hq with hq | hq
      · exact hq ▸ hlt
      · exact lt_trans hlt (hp q hq)
    · exact h
    · apply List.pairwise_cons.mpr
      refine ⟨?_, ih hl⟩
      intro q hq
      rcases mem_emplace hq with hq | hq
      · rw [hq]
        exact lt_of_le_of_ne (not_lt.mp hlt) (Ne.symm heq)
      · exact hp q hq

theorem emplace_perm {k : κ} {l : List (κ × ν)} (hk : k ∉ l.map Prod.fst) (v : ν) :
    (emplace k v l).Perm ((k, v) :: l) := by
  induction l with
  | nil => exact List.Perm.refl _
  | cons p l ih =>
    obtain ⟨hne, hk⟩ := not_or.mp (List.mem_cons.not.mp hk)
    unfold emplace
    split_ifs
    · exact List.Perm.refl _
    · exact ((ih hk).cons p).trans (List.Perm.swap _ _ _)

theorem Sorted.collectFrom {l : List (κ × ν)} (h : Sorted l) (ps : List (κ × ν)) :
    Sorted (collectFrom l ps) := by
  induction ps generalizing l with
  | nil => exact h
  | cons p ps ih => exact ih (h.emplace p.1 p.2)

theorem collectFrom_perm {l ps : List (κ × ν)} (h : ((l ++ ps).map Prod.fst).Nodup) :
    (collectFrom l ps).Perm (l ++ ps) := by
  induction ps generalizing l with
  | nil => rw [List.append_nil]; exact List.Perm.refl l
  | cons p ps ih =>
    have hmiddle : (l ++ p :: ps).Perm (p :: l ++ ps) := List.perm_middle
    have hnodup := (hmiddle.map Prod.fst).nodup_iff.mp h
    have hfresh : p.1 ∉ l.map Prod.fst := by
      intro hmem
      rw [List.cons_append, List.map_cons, List.nodup_cons, List.map_append] at hnodup
      exact hnodup.1 (List.mem_append_left _ hmem)
    have hstep := emplace_perm hfresh p.2
    have hrest : ((emplace p.1 p.2 l ++ ps).map Prod.fst).Nodup :=
      ((hstep.append_right ps).map Prod.fst).nodup_iff.mpr hnodup
    exact (ih hrest).trans ((hstep.append_right ps).trans hmiddle.symm)

theorem Sorted.keys_nodup {l : List (κ × ν)} (h : Sorted l) : (l.map Prod.fst).Nodup := by
  apply List.pairwise_map.mpr
  exact h.imp ne_of_lt

theorem Sorted.eq_of_perm {l l' : List (κ × ν)} (h : Sorted l) (h' : Sorted l')
    (hp : l.Perm l') : l = l' := by
  apply hp.eq_of_pairwise _ h h'
  intro a b _ _ hab hba
  exact absurd hba (lt_asymm hab)

/-- A sorted list is collected from its own pairs, in whatever order they come. -/
theorem Sorted.collect_of_perm {l ps : List (κ × ν)} (h : Sorted l) (hp : ps.Perm l) :
    Assoc.collectFrom [] ps = l := by
  have hnodup : (([] ++ ps).map Prod.fst).Nodup := (hp.map Prod.fst).nodup_iff.mpr h.keys_nodup
  apply Sorted.eq_of_perm
  · exact Sorted.collectFrom List.Pairwise.nil ps
  · exact h
  · exact (collectFrom_perm hnodup).trans hp

end Assoc
