import DuckdbLoki.Machines.Run

namespace Machines

variable {σ α ε τ β δ : Type}

def project (view : σ → τ) (part : ε → Option (β × δ)) (tr : List (Transition σ α ε)) :
    List (Transition τ β δ) :=
  tr.filterMap (fun x ↦ (part x.event).map (fun (b, d) ↦ ⟨view x.before, b, d, view x.after⟩))

/-- The steps of the whole are steps of the part, or leave it alone. -/
structure Projects (step : σ → α → Option (σ × ε)) (small : τ → β → Option (τ × δ))
    (view : σ → τ) (part : ε → Option (β × δ)) : Prop where
  moves : ∀ {s a t e b d}, step s a = some (t, e) → part e = some (b, d) →
    small (view s) b = some (view t, d)
  stays : ∀ {s a t e}, step s a = some (t, e) → part e = none → view t = view s

variable {step : σ → α → Option (σ × ε)} {small : τ → β → Option (τ × δ)} {view : σ → τ}
  {part : ε → Option (β × δ)} {s t : σ} {tr : List (Transition σ α ε)}

theorem project_snoc (x : Transition σ α ε) : project view part (tr ++ [x]) =
    project view part tr ++ ((part x.event).map (fun (b, d) ↦
      (⟨view x.before, b, d, view x.after⟩ : Transition τ β δ))).toList := by
  unfold project
  rw [List.filterMap_append, List.filterMap_cons]
  cases part x.event <;> rfl

/-- Seen from the part, a run is a run of the part. -/
theorem Run.project (h : Run step s tr t) (hpart : Projects step small view part) :
    Run small (view s) (project view part tr) (view t) := by
  induction h with
  | nil => exact .nil
  | @snoc tr t u a e _ hlast ih =>
    rw [project_snoc]
    cases hseen : part e with
    | none =>
      rw [hpart.stays hlast hseen, Option.map_none, Option.toList_none, List.append_nil]
      exact ih
    | some bd => exact ih.snoc (hpart.moves hlast hseen)

end Machines
