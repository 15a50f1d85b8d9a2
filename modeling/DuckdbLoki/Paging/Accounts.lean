import DuckdbLoki.Paging.Reader

namespace Paging

variable {ε κ : Type} {P : Plan ε κ} {s : Reader κ} {pages : List (List ε)} {rows pg : List ε}

/-- `rows` is all that was emitted for `pages`. Below the limit an entry is left
out only where another has its key. -/
structure Plan.Accounts (P : Plan ε κ) (s : Reader κ) (pages : List (List ε)) (rows : List ε) :
    Prop where
  emitted : s.emitted = rows.length
  sublist : rows.Sublist pages.flatten
  kept : rows.length < P.limit → ∀ e ∈ pages.flatten, P.key e ∈ rows.map P.key
  boundary : ∀ k ∈ s.boundary, k ∈ rows.map P.key

theorem Plan.accounts_start {r : ℤ} {done : Bool} : P.Accounts ⟨r, ∅, 0, done⟩ [] [] where
  emitted := rfl
  sublist := .slnil
  kept := fun _ ↦ nofun
  boundary := nofun

variable [DecidableEq κ]

theorem Plan.Accounts.page_kept (h : P.Accounts s pages rows)
    (hopen : s.emitted + (P.fresh s pg).length < P.limit) {e : ε} (he : e ∈ pg) :
    P.key e ∈ (rows ++ P.fresh s pg).map P.key := by
  rw [List.map_append, List.mem_append]
  by_cases hk : P.key e ∈ s.boundary
  · exact Or.inl (h.boundary _ hk)
  · refine Or.inr (List.mem_map_of_mem ?_)
    rw [P.fresh_eq_filter s pg hopen]
    exact List.mem_filter.mpr ⟨he, decide_eq_true hk⟩

theorem Plan.Accounts.accept (h : P.Accounts s pages rows) (pg : List ε) :
    P.Accounts (P.accept s pg).1 (pages ++ [pg]) (rows ++ P.fresh s pg) := by
  have hold : ∀ k ∈ s.boundary, k ∈ (rows ++ P.fresh s pg).map P.key := by
    intro k hk
    rw [List.map_append]
    exact List.mem_append_left _ (h.boundary k hk)
  have hflat : (pages ++ [pg]).flatten = pages.flatten ++ pg := by
    rw [List.flatten_append, List.flatten_singleton]
  refine ⟨?_, ?_, ?_, ?_⟩
  · rw [P.accept_emitted, h.emitted, List.length_append]
  · rw [hflat]
    exact h.sublist.append ((List.take_sublist _ _).trans List.filter_sublist)
  · intro hlimit e he
    rw [List.length_append] at hlimit
    rw [hflat] at he
    rcases List.mem_append.mp he with he | he
    · rw [List.map_append]
      exact List.mem_append_left _ (h.kept (by omega) e he)
    · exact h.page_kept (h.emitted ▸ hlimit) he
  · cases P.accept_outcome s pg with
    | finished _ ht => rw [ht]; exact hold
    | stalled _ _ _ ht => rw [ht]; exact hold
    | advanced _ hopen _ ht =>
      rw [ht]
      intro k hk
      obtain ⟨e, he, _, rfl⟩ := (P.mem_edge pg).mp hk
      exact h.page_kept hopen he

/-- No two of the emitted entries share a key, and an open reader has none of
them ahead of it. -/
structure Plan.Distinct (P : Plan ε κ) (s : Reader κ) (rows : List ε) : Prop where
  nodup : (rows.map P.key).Nodup
  behind : s.done = false →
    ∀ e ∈ rows, P.rank e ≤ s.frontier ∧ (P.rank e = s.frontier → P.key e ∈ s.boundary)

theorem Plan.mem_fresh {e : ε} (he : e ∈ P.fresh s pg) : e ∈ pg ∧ P.key e ∉ s.boundary := by
  obtain ⟨hmem, hkey⟩ := List.mem_filter.mp (List.mem_of_mem_take he)
  exact ⟨hmem, of_decide_eq_true hkey⟩

/-- A page that starts at the frontier and has no key twice repeats no key. -/
theorem Plan.Distinct.accept (h : P.Distinct s rows) (hP : P.Ranked) (ho : s.done = false)
    (hahead : ∀ e ∈ pg, s.frontier ≤ P.rank e) (hpg : (pg.map P.key).Nodup) :
    P.Distinct (P.accept s pg).1 (rows ++ P.fresh s pg) := by
  refine ⟨?_, ?_⟩
  · rw [List.map_append, List.nodup_append]
    refine ⟨h.nodup, ?_, ?_⟩
    · exact hpg.sublist (((List.take_sublist _ _).trans List.filter_sublist).map _)
    · rintro _ hrow _ hfresh rfl
      obtain ⟨a, ha, hkey⟩ := List.mem_map.mp hrow
      obtain ⟨e, he, heq⟩ := List.mem_map.mp hfresh
      obtain ⟨hmem, hnew⟩ := Plan.mem_fresh he
      obtain ⟨hle, hat⟩ := h.behind ho a ha
      have hrank := hP a e (hkey.trans heq.symm)
      have hfrontier := hahead e hmem
      exact hnew (heq ▸ hkey ▸ hat (by omega))
  · cases P.accept_outcome s pg with
    | finished _ ht => rw [ht]; exact nofun
    | stalled _ _ _ ht => rw [ht]; exact nofun
    | advanced hfull hopen hlt ht =>
      rw [ht]
      intro _ e he
      rcases List.mem_append.mp he with he | he
      · have hle := (h.behind ho e he).1
        exact ⟨by dsimp only; omega, fun heq ↦ by dsimp only at heq; omega⟩
      · have hmem := (Plan.mem_fresh he).1
        exact ⟨(Plan.last_spec (List.ne_nil_of_mem hmem)).2 e hmem,
          fun heq ↦ (P.mem_edge pg).mpr ⟨e, hmem, heq, rfl⟩⟩

end Paging
