import DuckdbLoki.Machines.Run

namespace Machines

variable {σ α ε : Type} {step : σ → α → Option (σ × ε)} {s t : σ} {tr : List (Transition σ α ε)}

structure UsesWork (step : σ → α → Option (σ × ε)) (counts : Transition σ α ε → Bool)
    (work : σ → ℕ) : Prop where
  used : ∀ x : Transition σ α ε, x.Valid step → counts x = true → work x.after < work x.before
  kept : ∀ x : Transition σ α ε, x.Valid step → counts x = false → work x.after ≤ work x.before

/-- The work there is bounds the steps that count, over a run of any length. -/
theorem Run.countP_le {counts : Transition σ α ε → Bool} {work : σ → ℕ}
    (h : UsesWork step counts work) (hrun : Run step s tr t) :
    tr.countP counts + work t ≤ work s := by
  induction hrun with
  | nil => exact Nat.le_of_eq (Nat.zero_add _)
  | @snoc tr t u a e _ hlast ih =>
    rw [List.countP_append, List.countP_singleton]
    cases hcounts : counts ⟨t, a, e, u⟩ with
    | true =>
      have hused := h.used ⟨t, a, e, u⟩ hlast hcounts
      dsimp only at hused
      rw [if_pos rfl]
      omega
    | false =>
      have hkept := h.kept ⟨t, a, e, u⟩ hlast hcounts
      dsimp only at hkept
      rw [if_neg Bool.false_ne_true]
      omega

structure Restless (step : σ → α → Option (σ × ε)) (I : σ → Prop) (allowed : σ → α → Prop)
    (resting : σ → Prop) (work : σ → ℕ) : Prop where
  moves : ∀ s, I s → ¬ resting s →
    ∃ a t e, allowed s a ∧ step s a = some (t, e) ∧ I t ∧ work t < work s

/-- Such a machine can be brought to rest. -/
theorem Restless.rests {I : σ → Prop} {allowed : σ → α → Prop} {resting : σ → Prop}
    {work : σ → ℕ} (h : Restless step I allowed resting work) (hs : I s) :
    ∃ tr t, Run step s tr t ∧ (∀ x ∈ tr, allowed x.before x.action) ∧ I t ∧ resting t ∧
      tr.length + work t ≤ work s := by
  induction hn : work s using Nat.strongRecOn generalizing s with
  | ind n ih =>
    by_cases hrest : resting s
    · exact ⟨[], s, .nil, nofun, hs, hrest, by simp [hn]⟩
    · obtain ⟨a, t, e, hallowed, hstep, ht, hless⟩ := h.moves s hs hrest
      obtain ⟨tr, u, hrun, hall, hu, hrest, hlen⟩ := ih _ (hn ▸ hless) ht rfl
      refine ⟨⟨s, a, e, t⟩ :: tr, u, (Run.single hstep).trans hrun, ?_, hu, hrest, ?_⟩
      · exact List.forall_mem_cons.mpr ⟨hallowed, hall⟩
      · rw [List.length_cons]
        omega

end Machines
