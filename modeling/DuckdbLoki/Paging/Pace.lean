import Mathlib.Algebra.Order.BigOperators.Group.List
import Mathlib.Algebra.Order.Ring.Nat
import Mathlib.Data.List.Flatten
import DuckdbLoki.Paging.Complete

namespace Paging

variable {ε κ : Type} {P : Plan ε κ} {L : List ε} {s t : Reader κ} {tr : List (List ε × List ε)}

theorem Plan.held_le_count (L : List ε) (s : Reader κ) :
    (P.held L s).length ≤ P.count L s.frontier := by
  rw [Plan.count_frontier]
  exact Nat.le_add_right _ _

variable [DecidableEq κ] (hkeys : (L.map P.key).Nodup)

include hkeys

/-- A page that leaves the run open is full, and brings all that it does not
repeat. -/
theorem Plan.At.cap_le_gain (hs : P.At L s) {pg : List ε} (hpg : P.Serves L s pg)
    (ho : (P.accept s pg).1.done = false) :
    P.cap ≤ (P.held L s).length + (P.gain L s).length := by
  cases P.accept_outcome s pg with
  | finished h ht | stalled hfull hopen h ht => simp [ht] at ho
  | advanced hfull hopen h ht =>
    have hcard := hs.card_eq_held hkeys
    have hfresh := (Plan.fresh_perm_gain hs (hs.separated hkeys) hpg).length_eq
    have hlen : pg.length = min (P.want s) (P.held L s).length + (P.gain L s).length := by
      rw [List.Perm.length_eq hpg, hs.answer_eq, List.length_append, List.length_take]
    rw [Plan.want] at hfull hlen
    omega

variable {k : ℕ} {Q : Reader κ → Prop} (hL : L.Pairwise (fun a b ↦ P.rank a ≤ P.rank b))
  (hP : P.Ranked) (hcap : 1 ≤ P.cap)

include hL hP hcap

/-- Every page but the last brings a page less what one rank may hold. -/
theorem Plan.Reads.pace (hk : ∀ r, P.count L r ≤ k) (h : P.Reads L Q s tr t)
    (hs : P.Standing L s) : ∀ x ∈ tr.dropLast, P.cap - k ≤ x.2.length := by
  induction h with
  | nil s => nofun
  | @cons s t pg tr ho hq hpg h ih =>
    have hat := hs.at_open ho
    have hsep := hat.separated hkeys
    have ih := ih (hs.accept hL hP hcap ho hsep hpg)
    by_cases htr : tr = []
    · rw [htr]
      nofun
    · -- another page follows, so this one did not end the run
      have hopen : (P.accept s pg).1.done = false := by
        cases h with
        | nil => exact absurd rfl htr
        | cons ho' _ _ _ => exact ho'
      have hgain := hat.cap_le_gain hkeys hpg hopen
      have hheld := (P.held_le_count L s).trans (hk _)
      have hfresh := (Plan.fresh_perm_gain hat hsep hpg).length_eq
      rw [List.dropLast_cons_of_ne_nil htr]
      refine List.forall_mem_cons.mpr ⟨?_, ih⟩
      dsimp only
      omega

end Paging
