import Mathlib.Data.List.Basic
import Mathlib.Tactic.Common

namespace Machines

structure Transition (σ α ε : Type) where
  before : σ
  action : α
  event : ε
  after : σ

variable {σ α ε : Type} {step : σ → α → Option (σ × ε)}

inductive Run (step : σ → α → Option (σ × ε)) (s : σ) : List (Transition σ α ε) → σ → Prop
  | nil : Run step s [] s
  | snoc {tr : List (Transition σ α ε)} {t u : σ} {a : α} {e : ε} :
      Run step s tr t → step t a = some (u, e) → Run step s (tr ++ [⟨t, a, e, u⟩]) u

def shown {β : Type} (f : ε → Option β) (tr : List (Transition σ α ε)) : List β :=
  tr.filterMap (fun x ↦ f x.event)

def Transition.Valid (step : σ → α → Option (σ × ε)) (x : Transition σ α ε) : Prop :=
  step x.before x.action = some (x.after, x.event)

section Rules

variable {s t u : σ} {tr xs ys : List (Transition σ α ε)}

theorem shown_snoc {β : Type} (f : ε → Option β) (tr : List (Transition σ α ε))
    (x : Transition σ α ε) : shown f (tr ++ [x]) = shown f tr ++ (f x.event).toList := by
  rw [shown, List.filterMap_append, List.filterMap_cons]
  cases f x.event <;> rfl

theorem Run.invariant {I : σ → Prop} (hstep : ∀ s a t e, I s → step s a = some (t, e) → I t)
    (h : Run step s tr t) (hs : I s) : I t := by
  induction h with
  | nil => exact hs
  | snoc _ hlast ih => exact hstep _ _ _ _ ih hlast

/-- What each step of a run preserves where it is taken. -/
theorem Run.preserves {I : σ → Prop} (h : Run step s tr t) (hs : I s)
    (hstep : ∀ x ∈ tr, x.Valid step → I x.before → I x.after) : I t := by
  induction h with
  | nil => exact hs
  | snoc _ hlast ih =>
    obtain ⟨hinit, hx⟩ := List.forall_mem_append.mp hstep
    exact hx _ List.mem_cons_self hlast (ih hinit)

theorem Run.single {a : α} {e : ε} (h : step s a = some (t, e)) :
    Run step s [⟨s, a, e, t⟩] t := .snoc .nil h

theorem Run.trans (h : Run step s xs t) (h' : Run step t ys u) : Run step s (xs ++ ys) u := by
  induction h' with
  | nil =>
    rw [List.append_nil]
    exact h
  | snoc _ hlast ih =>
    rw [← List.append_assoc]
    exact .snoc ih hlast

theorem Run.split (h : Run step s (xs ++ ys) u) : ∃ t, Run step s xs t ∧ Run step t ys u := by
  generalize hzs : xs ++ ys = zs at h
  induction h generalizing ys with
  | nil =>
    obtain ⟨hx, hy⟩ := List.append_eq_nil_iff.mp hzs
    rw [hx, hy]
    exact ⟨s, .nil, .nil⟩
  | @snoc tr t u a e hrun hlast ih =>
    rcases List.eq_nil_or_concat ys with hy | ⟨init, last, hy⟩
    · rw [hy, List.append_nil] at hzs
      rw [hy, hzs]
      exact ⟨u, .snoc hrun hlast, .nil⟩
    · rw [hy, List.concat_eq_append, ← List.append_assoc] at hzs
      obtain ⟨hinit, heq⟩ := List.append_inj' hzs rfl
      obtain ⟨v, h₁, h₂⟩ := ih hinit
      rw [hy, List.concat_eq_append, heq]
      exact ⟨v, h₁, .snoc h₂ hlast⟩

theorem Run.last {x : Transition σ α ε} (h : Run step s (xs ++ [x]) u) :
    Run step s xs x.before ∧ x.Valid step ∧ u = x.after := by
  generalize hzs : xs ++ [x] = zs at h
  cases h with
  | nil => exact absurd hzs (List.append_ne_nil_of_right_ne_nil _ (List.cons_ne_nil _ _))
  | snoc hrun hlast =>
    obtain ⟨hxs, hx⟩ := List.append_inj' hzs rfl
    obtain ⟨hx, _⟩ := List.cons.inj hx
    rw [hxs, hx]
    exact ⟨hrun, hlast, rfl⟩

theorem Run.around {x : Transition σ α ε} (h : Run step s (xs ++ x :: ys) u) :
    Run step s xs x.before ∧ x.Valid step ∧ Run step x.after ys u := by
  rw [List.append_cons] at h
  obtain ⟨t, hfirst, hrest⟩ := h.split
  obtain ⟨hbefore, hx, ht⟩ := hfirst.last
  rw [ht] at hrest
  exact ⟨hbefore, hx, hrest⟩

end Rules

section Exec

/-- The run that a list of actions makes, where each is enabled in turn. -/
def exec (step : σ → α → Option (σ × ε)) (s : σ) :
    List α → Option (List (Transition σ α ε) × σ)
  | [] => some ([], s)
  | a :: as => (step s a).bind (fun (t, e) ↦
      (exec step t as).map (fun (tr, u) ↦ (⟨s, a, e, t⟩ :: tr, u)))

theorem exec_run {s t : σ} {as : List α} {tr : List (Transition σ α ε)}
    (h : exec step s as = some (tr, t)) : Run step s tr t := by
  induction as generalizing s tr with
  | nil =>
    obtain ⟨htr, ht⟩ := Prod.mk.inj (Option.some.inj h)
    rw [← htr, ← ht]
    exact .nil
  | cons a as ih =>
    obtain ⟨⟨u, e⟩, hfirst, hrest⟩ := Option.bind_eq_some_iff.mp h
    obtain ⟨⟨tr', t'⟩, htail, h⟩ := Option.map_eq_some_iff.mp hrest
    obtain ⟨htr, ht⟩ := Prod.mk.inj h
    rw [ht] at htail
    rw [← htr]
    exact (Run.single hfirst).trans (ih htail)

end Exec

end Machines
