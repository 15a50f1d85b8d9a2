import DuckdbLoki.Paging.Reader
import Mathlib.Data.List.Perm.Basic
import Mathlib.Data.List.TakeDrop

namespace Paging

variable {ε κ : Type} {P : Plan ε κ}

section Source

variable (P) (L : List ε) (s : Reader κ)

def Plan.held : List ε := (L.take s.emitted).filter (fun e ↦ P.rank e = s.frontier)

def Plan.answer : List ε := (L.filter (fun e ↦ s.frontier ≤ P.rank e)).take (P.want s)

def Plan.Serves (pg : List ε) : Prop := pg.Perm (P.answer L s)

def Plan.gain : List ε := (L.drop s.emitted).take (P.want s - (P.held L s).length)

def Plan.Separated : Prop := ∀ e ∈ L.drop s.emitted, P.key e ∉ s.boundary

def Plan.count (r : ℤ) : ℕ := (L.filter (fun e ↦ P.rank e = r)).length

/-- The next page reaches past the frontier, or is the last one needed. -/
def Plan.Roomy : Prop :=
  P.want s ≤ P.count L s.frontier →
    min P.limit L.length ≤ s.emitted + (P.want s - (P.held L s).length)

theorem Plan.take_add_gain :
    L.take (s.emitted + (P.gain L s).length) = L.take s.emitted ++ P.gain L s := by
  rw [List.take_add]
  congr 1
  rw [Plan.gain, List.length_take, List.take_eq_take_iff]
  omega

theorem Plan.gain_append_drop :
    P.gain L s ++ L.drop (s.emitted + (P.gain L s).length) = L.drop s.emitted := by
  have h : P.gain L s = (L.drop s.emitted).take (P.gain L s).length := by
    rw [Plan.gain, List.length_take, List.take_eq_take_iff]
    omega
  rw [← List.drop_drop]
  conv_lhs => lhs; rw [h]
  exact List.take_append_drop _ _

end Source

theorem Plan.filter_le_eq {L : List ε} (hL : L.Pairwise (fun a b ↦ P.rank a ≤ P.rank b)) (r : ℤ) :
    L.filter (fun e ↦ r ≤ P.rank e) =
      L.filter (fun e ↦ P.rank e = r) ++ L.filter (fun e ↦ r < P.rank e) := by
  induction L with
  | nil => rfl
  | cons a L ih =>
    obtain ⟨ha, hL⟩ := List.pairwise_cons.mp hL
    rcases lt_trichotomy (P.rank a) r with h | h | h
    · simp only [List.filter_cons, decide_eq_true_eq, h.not_ge, h.ne, h.not_gt, if_false, ih hL]
    · simp only [List.filter_cons, decide_eq_true_eq, h, le_rfl, lt_irrefl, if_true, if_false,
        ih hL, List.cons_append]
    · have hnone : L.filter (fun e ↦ P.rank e = r) = [] := by
        apply List.filter_eq_nil_iff.mpr
        intro e he hr
        have := ha e he
        have := of_decide_eq_true hr
        omega
      simp only [List.filter_cons, decide_eq_true_eq, h.le, h.ne', h, if_true, if_false, ih hL,
        hnone, List.nil_append]

theorem Plan.filter_lt_append_filter_le {L : List ε}
    (hL : L.Pairwise (fun a b ↦ P.rank a ≤ P.rank b)) (r : ℤ) :
    L.filter (fun e ↦ P.rank e < r) ++ L.filter (fun e ↦ r ≤ P.rank e) = L := by
  induction L with
  | nil => rfl
  | cons a L ih =>
    obtain ⟨ha, hL⟩ := List.pairwise_cons.mp hL
    rcases lt_or_ge (P.rank a) r with h | h
    · simp only [List.filter_cons, decide_eq_true_eq, h, h.not_ge, if_true, if_false,
        List.cons_append, ih hL]
    · have hnone : L.filter (fun e ↦ P.rank e < r) = [] := by
        apply List.filter_eq_nil_iff.mpr
        intro e he hr
        have := ha e he
        have := of_decide_eq_true hr
        omega
      have ih := ih hL
      rw [hnone, List.nil_append] at ih
      simp only [List.filter_cons, decide_eq_true_eq, h, h.not_gt, if_true, if_false, hnone,
        List.nil_append, ih]

theorem Plan.answer_crowded {L : List ε} {s : Reader κ}
    (hL : L.Pairwise (fun a b ↦ P.rank a ≤ P.rank b))
    (hc : P.want s ≤ P.count L s.frontier) :
    (∀ e ∈ P.answer L s, P.rank e = s.frontier) ∧ (P.answer L s).length = P.want s := by
  have h : P.answer L s = (L.filter (fun e ↦ P.rank e = s.frontier)).take (P.want s) := by
    rw [Plan.answer, Plan.filter_le_eq hL]
    exact List.take_append_of_le_length hc
  rw [h]
  refine ⟨fun e he ↦ of_decide_eq_true (List.mem_filter.mp (List.mem_of_mem_take he)).2, ?_⟩
  rw [List.length_take]
  exact Nat.min_eq_left hc

theorem Plan.rank_held {L : List ε} {s : Reader κ} {n : ℕ} {e : ε}
    (he : e ∈ (P.held L s).take n) : P.rank e = s.frontier :=
  of_decide_eq_true (List.mem_filter.mp (List.mem_of_mem_take he)).2

theorem Plan.le_drop {L : List ε} {s : Reader κ} {m : ε}
    (hL : L.Pairwise (fun a b ↦ P.rank a ≤ P.rank b)) (hm : m ∈ P.gain L s) :
    ∀ e ∈ L.drop (s.emitted + (P.gain L s).length), P.rank m ≤ P.rank e := by
  intro e he
  have hsplit : L = (L.take s.emitted ++ P.gain L s) ++
      L.drop (s.emitted + (P.gain L s).length) := by
    rw [List.append_assoc, Plan.gain_append_drop, List.take_append_drop]
  rw [hsplit, List.pairwise_append] at hL
  exact hL.2.2 m (List.mem_append_right _ hm) e he

/-- A full page that ends at the frontier shows as many entries of that rank. -/
theorem Plan.crowded_of_stalled {L : List ε} {s : Reader κ} {pg : List ε} (hpg : P.Serves L s pg)
    (hw : 1 ≤ P.want s) (hfull : P.want s ≤ pg.length) (h : P.last pg ≤ s.frontier) :
    P.want s ≤ P.count L s.frontier := by
  obtain ⟨_, hmax⟩ := Plan.last_spec (P := P) (Plan.ne_nil_of_full hw hfull)
  have hall : ∀ e ∈ P.answer L s, decide (P.rank e = s.frontier) = true := by
    intro e he
    have hle := (hmax e ((List.Perm.mem_iff hpg).mpr he)).trans h
    have hge := (List.mem_filter.mp (List.mem_of_mem_take he)).2
    exact decide_eq_true (le_antisymm hle (of_decide_eq_true hge))
  have hsub : (P.answer L s).Sublist (L.filter (fun e ↦ P.rank e = s.frontier)) := by
    rw [← List.filter_eq_self.mpr hall]
    exact ((List.take_sublist _ _).trans List.filter_sublist).filter _
  have hcount := hsub.length_le
  rw [← List.Perm.length_eq hpg] at hcount
  exact hfull.trans hcount

theorem Plan.count_frontier (L : List ε) (s : Reader κ) : P.count L s.frontier =
    (P.held L s).length + ((L.drop s.emitted).filter (fun e ↦ P.rank e = s.frontier)).length := by
  rw [Plan.count, ← List.length_append, Plan.held, ← List.filter_append, List.take_append_drop]

variable [DecidableEq κ]

/-- The reader stands inside the sorted source, after the entries it emitted. -/
structure Plan.At (P : Plan ε κ) (L : List ε) (s : Reader κ) : Prop where
  le_length : s.emitted ≤ L.length
  before : ∀ e ∈ L.take s.emitted, P.rank e ≤ s.frontier
  after : ∀ e ∈ L.drop s.emitted, s.frontier ≤ P.rank e
  boundary : s.boundary = P.edge (L.take s.emitted) s.frontier
  held_le : (P.held L s).length ≤ P.cap

section Step

variable {L : List ε} {s : Reader κ} {pg : List ε}

/-- What the source has from the frontier on: the entries read already, and the
unread ones. -/
theorem Plan.At.from_frontier (hs : P.At L s) :
    L.filter (fun e ↦ s.frontier ≤ P.rank e) = P.held L s ++ L.drop s.emitted := by
  conv_lhs => rw [← List.take_append_drop s.emitted L, List.filter_append]
  congr 1
  · apply List.filter_congr
    intro e he
    have h := hs.before e he
    exact decide_eq_decide.mpr ⟨fun h' ↦ le_antisymm h h', fun h' ↦ h'.ge⟩
  · exact List.filter_eq_self.mpr (fun e he ↦ decide_eq_true (hs.after e he))

theorem Plan.At.answer_eq (hs : P.At L s) :
    P.answer L s = (P.held L s).take (P.want s) ++ P.gain L s := by
  rw [Plan.answer, hs.from_frontier, List.take_append, Plan.gain]

theorem Plan.At.card_le_held (hs : P.At L s) : s.boundary.card ≤ (P.held L s).length := by
  rw [hs.boundary]
  refine (List.toFinset_card_le _).trans ?_
  rw [List.length_map, Plan.held]

theorem Plan.At.held_mem (hs : P.At L s) {e : ε} (he : e ∈ P.held L s) : P.key e ∈ s.boundary := by
  obtain ⟨hmem, hr⟩ := List.mem_filter.mp he
  rw [hs.boundary]
  exact (P.mem_edge _).mpr ⟨e, hmem, of_decide_eq_true hr, rfl⟩

theorem Plan.At.gain_length_le (hs : P.At L s) : (P.gain L s).length ≤ P.limit - s.emitted := by
  have hc := hs.card_le_held
  rw [Plan.gain, List.length_take, Plan.want]
  omega

theorem Plan.fresh_perm_gain (hs : P.At L s) (hsep : P.Separated L s) (hpg : P.Serves L s pg) :
    (P.fresh s pg).Perm (P.gain L s) := by
  have hfilter : (pg.filter (fun e ↦ P.key e ∉ s.boundary)).Perm (P.gain L s) := by
    refine (hpg.filter _).trans ?_
    rw [hs.answer_eq, List.filter_append]
    have hheld : ((P.held L s).take (P.want s)).filter (fun e ↦ P.key e ∉ s.boundary) = [] := by
      apply List.filter_eq_nil_iff.mpr
      intro e he
      simpa using hs.held_mem (List.mem_of_mem_take he)
    have hgain : (P.gain L s).filter (fun e ↦ P.key e ∉ s.boundary) = P.gain L s :=
      List.filter_eq_self.mpr (fun e he ↦ decide_eq_true (hsep e (List.mem_of_mem_take he)))
    rw [hheld, hgain, List.nil_append]
  have hlen : (pg.filter (fun e ↦ P.key e ∉ s.boundary)).length ≤ P.limit - s.emitted := by
    rw [hfilter.length_eq]
    exact hs.gain_length_le
  rw [Plan.fresh, List.take_of_length_le hlen]
  exact hfilter

theorem Plan.accept_emitted_gain (hs : P.At L s) (hsep : P.Separated L s)
    (hpg : P.Serves L s pg) :
    (P.accept s pg).1.emitted = s.emitted + (P.gain L s).length := by
  rw [P.accept_emitted, (Plan.fresh_perm_gain hs hsep hpg).length_eq]

theorem Plan.At.emitted_add_gain_le (hs : P.At L s) :
    s.emitted + (P.gain L s).length ≤ L.length := by
  have h := hs.le_length
  rw [Plan.gain, List.length_take, List.length_drop]
  omega

theorem Plan.At.mem_page (hs : P.At L s) (hpg : P.Serves L s pg) (e : ε) :
    e ∈ pg ↔ e ∈ (P.held L s).take (P.want s) ∨ e ∈ P.gain L s := by
  rw [List.Perm.mem_iff hpg, hs.answer_eq, List.mem_append]

theorem Plan.At.gain_of_beyond (hs : P.At L s) (hpg : P.Serves L s pg) {e : ε} (he : e ∈ pg)
    (hr : s.frontier < P.rank e) : e ∈ P.gain L s := by
  rcases (hs.mem_page hpg e).mp he with hheld | hgain
  · exact absurd (Plan.rank_held hheld) hr.ne'
  · exact hgain

section Advance

variable {m : ε}

theorem Plan.At.take_le (hs : P.At L s) (hpg : P.Serves L s pg)
    (hmax : ∀ e ∈ pg, P.rank e ≤ P.rank m) (hm : s.frontier < P.rank m) :
    ∀ e ∈ L.take (s.emitted + (P.gain L s).length), P.rank e ≤ P.rank m := by
  intro e he
  rw [Plan.take_add_gain] at he
  rcases List.mem_append.mp he with hread | hgain
  · exact (hs.before e hread).trans hm.le
  · exact hmax e ((hs.mem_page hpg e).mpr (Or.inr hgain))

theorem Plan.At.edge_page (hs : P.At L s) (hpg : P.Serves L s pg) (hm : s.frontier < P.rank m) :
    P.edge pg (P.rank m) =
      P.edge (L.take (s.emitted + (P.gain L s).length)) (P.rank m) := by
  rw [Plan.take_add_gain]
  ext k
  simp only [Plan.mem_edge, List.mem_append]
  constructor
  · rintro ⟨e, he, hr, hk⟩
    exact ⟨e, Or.inr (hs.gain_of_beyond hpg he (hm.trans_eq hr.symm)), hr, hk⟩
  · rintro ⟨e, he | he, hr, hk⟩
    · have hread := hs.before e he
      omega
    · exact ⟨e, (hs.mem_page hpg e).mpr (Or.inr he), hr, hk⟩

theorem Plan.At.filter_take_length_le (hs : P.At L s) (hm : s.frontier < P.rank m) :
    ((L.take (s.emitted + (P.gain L s).length)).filter (fun e ↦ P.rank e = P.rank m)).length ≤
      P.cap := by
  have hold : (L.take s.emitted).filter (fun e ↦ P.rank e = P.rank m) = [] := by
    apply List.filter_eq_nil_iff.mpr
    intro e he hr
    exact absurd (of_decide_eq_true hr) ((hs.before e he).trans_lt hm).ne
  rw [Plan.take_add_gain, List.filter_append, hold, List.nil_append]
  have hnew := List.length_filter_le (fun e ↦ P.rank e = P.rank m) (P.gain L s)
  have hgain := List.length_take_le (P.want s - (P.held L s).length) (L.drop s.emitted)
  rw [Plan.gain] at hnew ⊢
  rw [Plan.want] at hgain hnew ⊢
  omega

end Advance

/-- A page that moves the frontier leaves the reader inside the source again:
the new boundary is what it has read at the new rank. -/
theorem Plan.At.accept (hL : L.Pairwise (fun a b ↦ P.rank a ≤ P.rank b)) (hs : P.At L s)
    (hsep : P.Separated L s) (hpg : P.Serves L s pg) (hw : 1 ≤ P.want s)
    (ho : (P.accept s pg).1.done = false) : P.At L (P.accept s pg).1 := by
  cases P.accept_outcome s pg with
  | finished h ht | stalled hfull hopen h ht => simp [ht] at ho
  | advanced hfull hopen h ht =>
    rw [ht, (Plan.fresh_perm_gain hs hsep hpg).length_eq]
    obtain ⟨⟨m, hm, hmr⟩, hmax⟩ := Plan.last_spec (P := P) (Plan.ne_nil_of_full hw hfull)
    rw [← hmr] at h hmax ⊢
    constructor
    · exact hs.emitted_add_gain_le
    · exact hs.take_le hpg hmax h
    · exact Plan.le_drop hL (hs.gain_of_beyond hpg hm h)
    · exact hs.edge_page hpg h
    · exact hs.filter_take_length_le h

/-- The page after `s` was full and lay wholly at the frontier. -/
structure Plan.Stuck (P : Plan ε κ) (L : List ε) (s t : Reader κ) : Prop where
  frontier : t.frontier = s.frontier
  crowded : P.want s ≤ P.count L s.frontier
  emitted : t.emitted = s.emitted + (P.want s - (P.held L s).length)
  below : t.emitted < P.limit

/-- A page that ends the run has exhausted the source, met the limit or got
stuck at a crowded rank. -/
theorem Plan.accept_done (hs : P.At L s) (hsep : P.Separated L s) (hpg : P.Serves L s pg)
    (hw : 1 ≤ P.want s) (hlim : s.emitted < P.limit) (hd : (P.accept s pg).1.done = true) :
    (P.accept s pg).1.emitted = min P.limit L.length ∨ P.Stuck L s (P.accept s pg).1 := by
  have hgain := Plan.fresh_perm_gain hs hsep hpg
  have hle := hs.emitted_add_gain_le
  have hglim := hs.gain_length_le
  have hlen : pg.length = min (P.want s) (P.held L s).length + (P.gain L s).length := by
    rw [List.Perm.length_eq hpg, hs.answer_eq, List.length_append, List.length_take]
  have hglen : (P.gain L s).length =
      min (P.want s - (P.held L s).length) (L.length - s.emitted) := by
    rw [Plan.gain, List.length_take, List.length_drop]
  cases P.accept_outcome s pg with
  | finished h ht =>
    left
    rw [hgain.length_eq] at h
    rw [ht]
    dsimp only
    rw [hgain.length_eq]
    omega
  | stalled hfull hopen h ht =>
    right
    rw [hgain.length_eq] at hopen ht
    rw [ht]
    refine ⟨rfl, Plan.crowded_of_stalled hpg hw hfull h, ?_, hopen⟩
    dsimp only
    omega
  | advanced hfull hopen h ht => simp [ht] at hd

end Step

end Paging
