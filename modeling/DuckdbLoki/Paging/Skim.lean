import DuckdbLoki.Paging.Complete

namespace Paging

variable {ε κ : Type} [DecidableEq κ] {P : Plan ε κ} {L : List ε}

section Page

variable (P) (L) (s : Reader κ) (pg : List ε)

def Plan.ahead : List ε := L.filter (fun e ↦ s.frontier ≤ P.rank e)

structure Plan.Skims : Prop where
  length_le : pg.length ≤ P.want s
  perm : pg.Perm ((P.ahead L s).take pg.length)

/-- The page is short, and leaves out an entry that was not read before. -/
def Plan.Loses : Prop :=
  pg.length < P.want s ∧ ∃ e ∈ (P.ahead L s).drop pg.length, P.key e ∉ s.boundary

end Page

section Step

variable {s : Reader κ} {pg : List ε}

omit [DecidableEq κ] in
theorem Plan.Skims.serves (h : P.Skims L s pg)
    (hlen : P.want s ≤ pg.length ∨ (P.ahead L s).length ≤ pg.length) : P.Serves L s pg := by
  have heq : (P.ahead L s).take pg.length = P.answer L s := by
    rw [Plan.answer, ← Plan.ahead]
    rcases hlen with hlen | hlen
    · rw [le_antisymm h.length_le hlen]
    · rw [List.take_of_length_le hlen, List.take_of_length_le (hlen.trans h.length_le)]
  rw [Plan.Serves, ← heq]
  exact h.perm

omit [DecidableEq κ] in
theorem Plan.Serves.not_loses (h : P.Serves L s pg) : ¬ P.Loses L s pg := by
  intro ⟨hshort, e, he, _⟩
  have hlen := List.Perm.length_eq h
  rw [Plan.answer, ← Plan.ahead, List.length_take] at hlen
  rw [List.drop_of_length_le (by omega)] at he
  exact absurd he List.not_mem_nil

variable (hkeys : (L.map P.key).Nodup) (hs : P.At L s) (hlim : s.emitted < P.limit)

include hkeys hs hlim

theorem Plan.Skims.fresh_perm (h : P.Skims L s pg) (hshort : pg.length < P.want s) :
    (P.fresh s pg).Perm ((L.drop s.emitted).take (pg.length - (P.held L s).length)) ∧
      s.emitted + (P.fresh s pg).length < P.limit := by
  have hcard := hs.card_eq_held hkeys
  have hfilter : (pg.filter (fun e ↦ P.key e ∉ s.boundary)).Perm
      ((L.drop s.emitted).take (pg.length - (P.held L s).length)) := by
    apply (h.perm.filter _).trans
    rw [Plan.ahead, hs.from_frontier, List.take_append, List.filter_append]
    have hheld : ((P.held L s).take pg.length).filter (fun e ↦ P.key e ∉ s.boundary) = [] := by
      apply List.filter_eq_nil_iff.mpr
      intro e he
      simpa using hs.held_mem (List.mem_of_mem_take he)
    have hnew : ((L.drop s.emitted).take (pg.length - (P.held L s).length)).filter
        (fun e ↦ P.key e ∉ s.boundary) =
          (L.drop s.emitted).take (pg.length - (P.held L s).length) := by
      apply List.filter_eq_self.mpr
      intro e he
      exact decide_eq_true (hs.separated hkeys e (List.mem_of_mem_take he))
    rw [hheld, hnew, List.nil_append]
  have hlen := hfilter.length_eq
  have hroom := List.length_take_le (pg.length - (P.held L s).length) (L.drop s.emitted)
  rw [Plan.want] at hshort
  have hall : P.fresh s pg = pg.filter (fun e ↦ P.key e ∉ s.boundary) := by
    rw [Plan.fresh]
    exact List.take_of_length_le (by omega)
  rw [hall]
  exact ⟨hfilter, by omega⟩

/-- A short page ends the run; it has read the whole source unless it lost an
entry. -/
theorem Plan.Skims.short (h : P.Skims L s pg) (hshort : pg.length < P.want s) :
    (P.accept s pg).1.done = true ∧
      (P.fresh s pg).Perm ((L.drop s.emitted).take (P.fresh s pg).length) ∧
      ((P.accept s pg).1.emitted = min P.limit L.length ↔ ¬ P.Loses L s pg) := by
  obtain ⟨hperm, hopen⟩ := h.fresh_perm hkeys hs hlim hshort
  have hlen := hperm.length_eq
  have hle := hs.le_length
  rw [List.length_take, List.length_drop] at hlen
  refine ⟨?_, ?_, ?_⟩
  · cases P.accept_outcome s pg with
    | finished h ht | stalled hfull hopen h ht => rw [ht]
    | advanced hfull hopen h ht => omega
  · rw [hlen]
    have hcut : (L.drop s.emitted).take (min (pg.length - (P.held L s).length)
        (L.length - s.emitted)) =
          (L.drop s.emitted).take (pg.length - (P.held L s).length) := by
      rw [List.take_eq_take_iff, List.length_drop]
      omega
    rw [hcut]
    exact hperm
  · have hloses : P.Loses L s pg ↔ pg.length - (P.held L s).length < L.length - s.emitted := by
      have hdrop : (P.ahead L s).drop pg.length = (P.held L s).drop pg.length ++
          (L.drop s.emitted).drop (pg.length - (P.held L s).length) := by
        rw [Plan.ahead, hs.from_frontier, List.drop_append]
      rw [Plan.Loses, hdrop]
      constructor
      · intro ⟨_, e, he, hnew⟩
        rcases List.mem_append.mp he with he | he
        · exact absurd (hs.held_mem (List.mem_of_mem_drop he)) hnew
        · have hpos := List.length_pos_of_mem he
          rw [List.length_drop, List.length_drop] at hpos
          omega
      · intro hlt
        refine ⟨hshort, ?_⟩
        obtain ⟨e, he⟩ := List.exists_mem_of_length_pos
          (l := (L.drop s.emitted).drop (pg.length - (P.held L s).length)) (by
            rw [List.length_drop, List.length_drop]
            omega)
        exact ⟨e, List.mem_append_right _ he, hs.separated hkeys e (List.mem_of_mem_drop he)⟩
    rw [P.accept_emitted, hloses]
    omega

end Step

inductive Plan.SkimRuns (P : Plan ε κ) (L : List ε) :
    Reader κ → List (Reader κ × List ε × List ε) → Reader κ → Prop
  | nil (s : Reader κ) : SkimRuns P L s [] s
  | cons {s t : Reader κ} {pg : List ε} {tr : List (Reader κ × List ε × List ε)} :
      s.done = false → P.Skims L s pg → SkimRuns P L (P.accept s pg).1 tr t →
      SkimRuns P L s ((s, pg, P.fresh s pg) :: tr) t

section Runs

variable {s t : Reader κ} {tr : List (Reader κ × List ε × List ε)}

theorem Plan.SkimRuns.runs (h : P.SkimRuns L s tr t) : P.Runs s (tr.map Prod.snd) t := by
  induction h with
  | nil s => exact .nil s
  | cons ho hpg h ih => exact .cons ho ih

theorem Plan.SkimRuns.eq_of_done (h : P.SkimRuns L s tr t) (hd : s.done = true) :
    tr = [] ∧ t = s := by
  obtain ⟨htr, ht⟩ := h.runs.eq_of_done hd
  exact ⟨List.map_eq_nil_iff.mp htr, ht⟩

variable (hL : L.Pairwise (fun a b ↦ P.rank a ≤ P.rank b)) (hP : P.Ranked) (hcap : 1 ≤ P.cap)
  (hkeys : (L.map P.key).Nodup)

include hL hP hcap hkeys

theorem Plan.SkimRuns.emissions_perm (h : P.SkimRuns L s tr t) (hs : P.Standing L s) :
    (emissions (tr.map Prod.snd)).Perm ((L.drop s.emitted).take (t.emitted - s.emitted)) := by
  induction h with
  | nil s => simp
  | @cons s t pg tr ho hpg h ih =>
    have hat := hs.at_open ho
    have hlim := hs.sound.emitted_lt ho
    have hgrow := h.runs.emitted
    rw [P.accept_emitted] at hgrow
    rw [List.map_cons, emissions_cons]
    by_cases hshort : pg.length < P.want s
    · obtain ⟨hd, hperm, _⟩ := hpg.short hkeys hat hlim hshort
      obtain ⟨htr, _⟩ := h.eq_of_done hd
      rw [htr, List.map_nil, emissions_nil, List.length_nil] at hgrow
      rw [htr, List.map_nil, emissions_nil, List.append_nil,
        show t.emitted - s.emitted = (P.fresh s pg).length by omega]
      exact hperm
    · have hserves := hpg.serves (Or.inl (not_lt.mp hshort))
      have hsep := hat.separated hkeys
      have hfresh := Plan.fresh_perm_gain hat hsep hserves
      have ih := ih (hs.accept hL hP hcap ho hsep hserves)
      rw [P.accept_emitted, hfresh.length_eq] at ih
      rw [hfresh.length_eq] at hgrow
      have hsum : t.emitted - s.emitted =
          (P.gain L s).length + (t.emitted - (s.emitted + (P.gain L s).length)) := by omega
      rw [hsum, ← P.gain_append_drop L s, List.take_length_add_append]
      exact hfresh.append ih

/-- A run that no crowded rank stops reads all it may exactly when no page on
the way loses an entry. -/
theorem Plan.SkimRuns.complete_iff (h : P.SkimRuns L s tr t) (hcrowd : ∀ r, P.count L r < P.cap)
    (hs : P.Standing L s) (ho : s.done = false) (hd : t.done = true) :
    t.emitted = min P.limit L.length ↔ ∀ x ∈ tr, ¬ P.Loses L x.1 x.2.1 := by
  induction h with
  | nil s => rw [ho] at hd; cases hd
  | @cons s t pg tr ho' hpg h ih =>
    have hat := hs.at_open ho'
    have hlim := hs.sound.emitted_lt ho'
    by_cases hshort : pg.length < P.want s
    · obtain ⟨hd', _, hiff⟩ := hpg.short hkeys hat hlim hshort
      obtain ⟨htr, ht⟩ := h.eq_of_done hd'
      rw [htr, ht, hiff, List.forall_mem_singleton]
    · have hserves := hpg.serves (Or.inl (not_lt.mp hshort))
      have hsep := hat.separated hkeys
      rw [List.forall_mem_cons, and_iff_right hserves.not_loses]
      cases hd' : (P.accept s pg).1.done with
      | false => exact ih (hs.accept hL hP hcap ho' hsep hserves) hd' hd
      | true =>
        obtain ⟨htr, ht⟩ := h.eq_of_done hd'
        rw [htr, ht]
        have hw := hs.sound.want_pos ho' hcap
        rcases Plan.accept_done hat hsep hserves hw hlim hd' with hem | hstuck
        · exact iff_of_true hem nofun
        · have hfull := (hstuck.cap_le hkeys hL hat).1
          exact absurd hfull (not_le.mpr (hcrowd _))

end Runs

end Paging
