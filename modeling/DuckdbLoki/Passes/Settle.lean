import Mathlib.Data.List.Basic
import Mathlib.Data.List.Perm.Basic
import Mathlib.Tactic.Common

namespace Passes

variable {σ ε : Type}

/-- Try a condition; the flag tells whether it may be erased. -/
def run (attempt : σ → ε → σ × Bool) (s : σ) (conditions : List ε) : σ × List ε :=
  conditions.foldl (fun st e ↦
    ((attempt st.1 e).1, if (attempt st.1 e).2 then st.2 else st.2 ++ [e])) (s, [])

/-- What is moved into the store neither depends on its order nor on how often it
is moved, up to a relation between stores, and no condition changes the lot of
another. -/
structure Settles (attempt : σ → ε → σ × Bool) (same : σ → σ → Prop) : Prop where
  equiv : Equivalence same
  congr : ∀ {s t} e, same s t → same (attempt s e).1 (attempt t e).1
  comm : ∀ s a b, same (attempt (attempt s a).1 b).1 (attempt (attempt s b).1 a).1
  idem : ∀ s a, same (attempt (attempt s a).1 a).1 (attempt s a).1
  steady : ∀ s a b, (attempt (attempt s a).1 b).2 = (attempt s b).2

def push (attempt : σ → ε → σ × Bool) (s : σ) (conditions : List ε) : σ :=
  conditions.foldl (fun s e ↦ (attempt s e).1) s

variable {attempt : σ → ε → σ × Bool} {same : σ → σ → Prop} {s t : σ} {xs ys : List ε}

theorem push_append : push attempt s (xs ++ ys) = push attempt (push attempt s xs) ys :=
  List.foldl_append

section Settled

variable (h : Settles attempt same)

include h

theorem Settles.push_steady (xs : List ε) (s : σ) (e : ε) :
    (attempt (push attempt s xs) e).2 = (attempt s e).2 := by
  induction xs generalizing s with
  | nil => rfl
  | cons x xs ih => exact (ih _).trans (h.steady s x e)

theorem Settles.foldl_eq (kept : List ε) :
    xs.foldl (fun st e ↦
        ((attempt st.1 e).1, if (attempt st.1 e).2 then st.2 else st.2 ++ [e])) (s, kept) =
      (push attempt s xs, kept ++ xs.filter (fun e ↦ !(attempt s e).2)) := by
  induction xs generalizing s kept with
  | nil => rw [List.filter_nil, List.append_nil]; rfl
  | cons x xs ih =>
    have hsteady : (fun e ↦ !(attempt (attempt s x).1 e).2) = fun e ↦ !(attempt s e).2 := by
      funext e
      rw [h.steady]
    rw [List.foldl_cons, ih, hsteady]
    cases hx : (attempt s x).2 with
    | true =>
      rw [List.filter_cons_of_neg (by simp [hx]), if_pos rfl]
      rfl
    | false =>
      rw [List.filter_cons_of_pos (by simp [hx]), if_neg Bool.false_ne_true, List.append_assoc]
      rfl

/-- A condition is kept for what it is, wherever it stands. -/
theorem Settles.run_eq (s : σ) (xs : List ε) :
    run attempt s xs = (push attempt s xs, xs.filter (fun e ↦ !(attempt s e).2)) := by
  have hfold : run attempt s xs = (_, [] ++ _) := h.foldl_eq []
  rw [List.nil_append] at hfold
  exact hfold

theorem Settles.push_congr (hs : same s t) (xs : List ε) :
    same (push attempt s xs) (push attempt t xs) := by
  induction xs generalizing s t with
  | nil => exact hs
  | cons x xs ih => exact ih (h.congr x hs)

theorem Settles.push_comm (xs : List ε) (s : σ) (e : ε) :
    same (push attempt (attempt s e).1 xs) (attempt (push attempt s xs) e).1 := by
  induction xs generalizing s with
  | nil => exact h.equiv.refl _
  | cons x xs ih => exact h.equiv.trans (h.push_congr (h.comm s e x) xs) (ih (attempt s x).1)

theorem Settles.push_perm (hperm : xs.Perm ys) (s : σ) :
    same (push attempt s xs) (push attempt s ys) := by
  induction hperm generalizing s with
  | nil => exact h.equiv.refl s
  | cons e _ ih => exact ih (attempt s e).1
  | swap a b xs => exact h.push_congr (h.comm s b a) xs
  | trans _ _ ih₁ ih₂ => exact h.equiv.trans (ih₁ s) (ih₂ s)

theorem Settles.push_mem {e : ε} (he : e ∈ xs) (s : σ) :
    same (attempt (push attempt s xs) e).1 (push attempt s xs) := by
  induction xs generalizing s with
  | nil => cases he
  | cons x xs ih =>
    rcases List.mem_cons.mp he with rfl | he
    · have hlast := h.push_comm xs s e
      have htwice := h.equiv.trans (h.congr e hlast) (h.idem (push attempt s xs) e)
      exact h.equiv.trans htwice (h.equiv.symm hlast)
    · exact ih he (attempt s x).1

theorem Settles.push_again (hys : ∀ e ∈ ys, e ∈ xs) (s : σ) :
    same (push attempt (push attempt s xs) ys) (push attempt s xs) := by
  induction ys with
  | nil => exact h.equiv.refl _
  | cons y ys ih =>
    obtain ⟨hy, hys⟩ := List.forall_mem_cons.mp hys
    exact h.equiv.trans (h.push_congr (h.push_mem hy s) ys) (ih hys)

/-- Two passes over two lists do what one pass over both does. -/
theorem Settles.run_append : run attempt s (xs ++ ys) =
    ((run attempt (run attempt s xs).1 ys).1,
      (run attempt s xs).2 ++ (run attempt (run attempt s xs).1 ys).2) := by
  have hsteady : (fun e ↦ !(attempt (push attempt s xs) e).2) = fun e ↦ !(attempt s e).2 := by
    funext e
    rw [h.push_steady]
  rw [h.run_eq, h.run_eq, h.run_eq, hsteady, push_append, List.filter_append]

theorem Settles.run_perm (hperm : xs.Perm ys) (s : σ) :
    same (run attempt s xs).1 (run attempt s ys).1 ∧
      (run attempt s xs).2.Perm (run attempt s ys).2 := by
  rw [h.run_eq, h.run_eq]
  exact ⟨h.push_perm hperm s, hperm.filter _⟩

/-- A pass over conditions that were kept keeps them all, and the store says
what it said. -/
theorem Settles.run_again (hys : ∀ e ∈ ys, e ∈ (run attempt s xs).2) :
    (run attempt (run attempt s xs).1 ys).2 = ys ∧
      same (run attempt (run attempt s xs).1 ys).1 (run attempt s xs).1 := by
  rw [h.run_eq] at hys
  rw [h.run_eq _ ys, h.run_eq s xs]
  refine ⟨?_, h.push_again (fun e he ↦ (List.mem_filter.mp (hys e he)).1) s⟩
  apply List.filter_eq_self.mpr
  intro e he
  rw [h.push_steady]
  exact (List.mem_filter.mp (hys e he)).2

end Settled

end Passes
