import Mathlib.Data.Finset.Card
import Mathlib.Data.Int.Order.Basic
import Mathlib.Tactic.Common

namespace Paging

/-- A source of entries in rank order, read page by page. Entries with equal
keys are taken for one entry when a page repeats the end of the last one. -/
structure Plan (ε κ : Type) where
  rank : ε → ℤ
  key : ε → κ
  limit : ℕ
  cap : ℕ

/-- What a reader keeps between two pages: the rank it resumes from, the keys
it has already seen at that rank, and how many entries it has emitted. -/
structure Reader (κ : Type) where
  frontier : ℤ
  boundary : Finset κ
  emitted : ℕ
  done : Bool

variable {ε κ : Type} {P : Plan ε κ}

def Plan.Ranked (P : Plan ε κ) : Prop := ∀ a b, P.key a = P.key b → P.rank a = P.rank b

def Plan.want (P : Plan ε κ) (s : Reader κ) : ℕ :=
  min (P.limit - s.emitted + s.boundary.card) P.cap

def Plan.last (P : Plan ε κ) (pg : List ε) : ℤ := (pg.map P.rank).max?.getD 0

theorem Plan.last_spec {pg : List ε} (hpg : pg ≠ []) :
    (∃ e ∈ pg, P.rank e = P.last pg) ∧ ∀ e ∈ pg, P.rank e ≤ P.last pg := by
  obtain ⟨r, hr⟩ : ∃ r, (pg.map P.rank).max? = some r := by
    cases h : (pg.map P.rank).max? with
    | none => exact absurd (List.map_eq_nil_iff.mp (List.max?_eq_none_iff.mp h)) hpg
    | some r => exact ⟨r, rfl⟩
  have hlast : P.last pg = r := by rw [Plan.last, hr, Option.getD_some]
  obtain ⟨hmem, hle⟩ := List.max?_eq_some_iff.mp hr
  rw [hlast]
  exact ⟨List.mem_map.mp hmem, fun e he ↦ hle _ (List.mem_map_of_mem he)⟩

theorem Plan.ne_nil_of_full {s : Reader κ} {pg : List ε} (hw : 1 ≤ P.want s)
    (hfull : P.want s ≤ pg.length) : pg ≠ [] :=
  List.ne_nil_of_length_pos (hw.trans hfull)

structure Plan.Sound (P : Plan ε κ) (s : Reader κ) : Prop where
  emitted_le : s.emitted ≤ P.limit
  emitted_lt : s.done = false → s.emitted < P.limit
  card_le : s.boundary.card ≤ s.emitted
  at_frontier : ∀ e, P.key e ∈ s.boundary → P.rank e = s.frontier

theorem Plan.Sound.want_pos {s : Reader κ} (hs : P.Sound s) (ho : s.done = false)
    (hcap : 1 ≤ P.cap) : 1 ≤ P.want s := by
  have h := hs.emitted_lt ho
  rw [Plan.want]
  omega

variable [DecidableEq κ]

section Accept

variable (P) (s : Reader κ) (pg : List ε)

def Plan.fresh : List ε :=
  (pg.filter (fun e ↦ P.key e ∉ s.boundary)).take (P.limit - s.emitted)

def Plan.edge (r : ℤ) : Finset κ := ((pg.filter (fun e ↦ P.rank e = r)).map P.key).toFinset

/-- Take in one page: emit what is new, and resume from its last rank unless
the page was short, the limit is met, or the rank did not move. -/
def Plan.accept : Reader κ × List ε :=
  let rows := P.fresh s pg
  let emitted := s.emitted + rows.length
  if pg.length < P.want s ∨ P.limit ≤ emitted then
    ({ s with emitted := emitted, done := true }, rows)
  else if s.frontier < P.last pg then
    ({ frontier := P.last pg, boundary := P.edge pg (P.last pg), emitted := emitted,
       done := false }, rows)
  else ({ s with emitted := emitted, done := true }, rows)

inductive Plan.Outcome (t : Reader κ) : Prop
  | finished (h : pg.length < P.want s ∨ P.limit ≤ s.emitted + (P.fresh s pg).length)
      (ht : t = { s with emitted := s.emitted + (P.fresh s pg).length, done := true })
  | stalled (hfull : P.want s ≤ pg.length)
      (hopen : s.emitted + (P.fresh s pg).length < P.limit) (h : P.last pg ≤ s.frontier)
      (ht : t = { s with emitted := s.emitted + (P.fresh s pg).length, done := true })
  | advanced (hfull : P.want s ≤ pg.length)
      (hopen : s.emitted + (P.fresh s pg).length < P.limit) (h : s.frontier < P.last pg)
      (ht : t = { frontier := P.last pg, boundary := P.edge pg (P.last pg),
                  emitted := s.emitted + (P.fresh s pg).length, done := false })

theorem Plan.accept_outcome : P.Outcome s pg (P.accept s pg).1 := by
  unfold Plan.accept
  dsimp only
  split_ifs with h h'
  · exact .finished h rfl
  · push Not at h
    exact .advanced h.1 h.2 h' rfl
  · push Not at h
    exact .stalled h.1 h.2 (not_lt.mp h') rfl

theorem Plan.accept_emitted : (P.accept s pg).1.emitted = s.emitted + (P.fresh s pg).length := by
  cases P.accept_outcome s pg with
  | finished h ht => rw [ht]
  | stalled hfull hopen h ht => rw [ht]
  | advanced hfull hopen h ht => rw [ht]

theorem Plan.fresh_length_le : (P.fresh s pg).length ≤ P.limit - s.emitted := by
  simp [Plan.fresh]

theorem Plan.fresh_eq_filter (h : s.emitted + (P.fresh s pg).length < P.limit) :
    P.fresh s pg = pg.filter (fun e ↦ P.key e ∉ s.boundary) := by
  rw [Plan.fresh, List.length_take] at h
  exact List.take_of_length_le (by omega)

theorem Plan.mem_edge {r : ℤ} {k : κ} : k ∈ P.edge pg r ↔ ∃ e ∈ pg, P.rank e = r ∧ P.key e = k := by
  simp [Plan.edge, and_assoc]

theorem Plan.edge_card_le (r : ℤ) : (P.edge pg r).card ≤ pg.length := by
  refine (List.toFinset_card_le _).trans ?_
  rw [List.length_map]
  exact List.length_filter_le _ _

end Accept

section Progress

variable {s : Reader κ} {pg : List ε}

/-- The entries at a frontier that moved are all new: the remembered keys
belong to the old rank. -/
theorem Plan.edge_eq_fresh_edge (hs : P.Sound s) (hlt : s.frontier < P.last pg)
    (hopen : s.emitted + (P.fresh s pg).length < P.limit) :
    P.edge pg (P.last pg) = P.edge (P.fresh s pg) (P.last pg) := by
  rw [P.fresh_eq_filter s pg hopen]
  ext k
  simp only [Plan.mem_edge, List.mem_filter, decide_eq_true_eq]
  constructor
  · rintro ⟨e, he, hr, hk⟩
    refine ⟨e, ⟨he, fun hb ↦ ?_⟩, hr, hk⟩
    have h := hs.at_frontier e hb
    omega
  · rintro ⟨e, ⟨he, _⟩, hr, hk⟩
    exact ⟨e, he, hr, hk⟩

theorem Plan.accept_sound (hP : P.Ranked) (hs : P.Sound s) (pg : List ε) :
    P.Sound (P.accept s pg).1 := by
  have hlen := P.fresh_length_le s pg
  have hle := hs.emitted_le
  have hcard := hs.card_le
  cases P.accept_outcome s pg with
  | finished h ht | stalled hfull hopen h ht =>
    rw [ht]
    exact ⟨by dsimp only; omega, by simp, by dsimp only; omega, hs.at_frontier⟩
  | advanced hfull hopen h ht =>
    rw [ht]
    refine ⟨by dsimp only; omega, fun _ ↦ hopen, ?_, ?_⟩
    · dsimp only
      rw [Plan.edge_eq_fresh_edge hs h hopen]
      exact (P.edge_card_le _ _).trans (Nat.le_add_left _ _)
    · intro e he
      obtain ⟨a, _, hr, hk⟩ := (P.mem_edge pg).mp he
      exact (hP e a hk.symm).trans hr

/-- A page that leaves the reader open has moved it and added an entry. -/
theorem Plan.accept_progress (hs : P.Sound s) (ho : s.done = false) (hcap : 1 ≤ P.cap)
    (pg : List ε) (ho' : (P.accept s pg).1.done = false) :
    s.frontier < (P.accept s pg).1.frontier ∧ P.fresh s pg ≠ [] := by
  cases P.accept_outcome s pg with
  | finished h ht | stalled hfull hopen h ht => simp [ht] at ho'
  | advanced hfull hopen h ht =>
    rw [ht]
    refine ⟨h, ?_⟩
    have hpg : pg ≠ [] := Plan.ne_nil_of_full (hs.want_pos ho hcap) hfull
    obtain ⟨⟨e, he, hr⟩, _⟩ := Plan.last_spec (P := P) hpg
    have hk : P.key e ∈ P.edge (P.fresh s pg) (P.last pg) := by
      rw [← Plan.edge_eq_fresh_edge hs h hopen]
      exact (P.mem_edge pg).mpr ⟨e, he, hr, rfl⟩
    obtain ⟨a, ha, _⟩ := (P.mem_edge _).mp hk
    exact List.ne_nil_of_mem ha

end Progress

inductive Plan.Runs (P : Plan ε κ) : Reader κ → List (List ε × List ε) → Reader κ → Prop
  | nil (s : Reader κ) : Runs P s [] s
  | cons {s t : Reader κ} {pg : List ε} {tr : List (List ε × List ε)} :
      s.done = false → Runs P (P.accept s pg).1 tr t →
      Runs P s ((pg, P.fresh s pg) :: tr) t

def emissions (tr : List (List ε × List ε)) : List ε := (tr.map Prod.snd).flatten

@[simp] theorem emissions_nil : emissions ([] : List (List ε × List ε)) = [] := rfl

@[simp] theorem emissions_cons (pg rows : List ε) (tr : List (List ε × List ε)) :
    emissions ((pg, rows) :: tr) = rows ++ emissions tr := rfl

section Runs

variable {s t : Reader κ} {tr : List (List ε × List ε)}

theorem Plan.Runs.emitted (h : P.Runs s tr t) : t.emitted = s.emitted + (emissions tr).length := by
  induction h with
  | nil s => simp
  | @cons s t pg tr ho h ih =>
    rw [ih, P.accept_emitted, emissions_cons, List.length_append]
    omega

theorem Plan.Runs.frontier_le (h : P.Runs s tr t) : s.frontier ≤ t.frontier := by
  induction h with
  | nil s => exact le_rfl
  | @cons s t pg tr ho h ih =>
    refine le_trans ?_ ih
    cases P.accept_outcome s pg with
    | finished h ht | stalled hfull hopen h ht => rw [ht]
    | advanced hfull hopen h ht =>
      rw [ht]
      exact h.le

theorem Plan.Runs.eq_of_done (h : P.Runs s tr t) (hd : s.done = true) : tr = [] ∧ t = s := by
  cases h with
  | nil s => exact ⟨rfl, rfl⟩
  | cons ho h => rw [hd] at ho; cases ho

/-- The emitted count measures a run: every page but the last adds to it. -/
theorem Plan.Runs.length_le (h : P.Runs s tr t) (hP : P.Ranked) (hs : P.Sound s)
    (hcap : 1 ≤ P.cap) :
    s.emitted + tr.length ≤ P.limit ∧ (t.done = false → s.emitted + tr.length ≤ t.emitted) := by
  induction h with
  | nil s =>
    have h := hs.emitted_le
    exact ⟨by simpa using h, fun _ ↦ by simp⟩
  | @cons s t pg tr ho h ih =>
    have hlt := hs.emitted_lt ho
    cases hd : (P.accept s pg).1.done with
    | true =>
      obtain ⟨rfl, rfl⟩ := h.eq_of_done hd
      exact ⟨hlt, fun ho' ↦ by rw [hd] at ho'; cases ho'⟩
    | false =>
      obtain ⟨_, hne⟩ := Plan.accept_progress hs ho hcap _ hd
      have hpos := List.length_pos_iff.mpr hne
      have he := P.accept_emitted s pg
      obtain ⟨ih₁, ih₂⟩ := ih (Plan.accept_sound hP hs _)
      refine ⟨by simp only [List.length_cons]; omega, fun ho' ↦ ?_⟩
      have h₂ := ih₂ ho'
      simp only [List.length_cons]
      omega

end Runs

end Paging
