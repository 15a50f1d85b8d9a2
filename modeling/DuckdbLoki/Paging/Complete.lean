import DuckdbLoki.Paging.Drain

namespace Paging

variable {ε κ : Type} [DecidableEq κ] {P : Plan ε κ} {L : List ε}

/-- A run over pages served by a fixed source, asking for each page in a state
that meets `Q`. -/
inductive Plan.Reads (P : Plan ε κ) (L : List ε) (Q : Reader κ → Prop) :
    Reader κ → List (List ε × List ε) → Reader κ → Prop
  | nil (s : Reader κ) : Reads P L Q s [] s
  | cons {s t : Reader κ} {pg : List ε} {tr : List (List ε × List ε)} :
      s.done = false → Q s → P.Serves L s pg → Reads P L Q (P.accept s pg).1 tr t →
      Reads P L Q s ((pg, P.fresh s pg) :: tr) t

structure Plan.Standing (P : Plan ε κ) (L : List ε) (s : Reader κ) : Prop where
  sound : P.Sound s
  at_open : s.done = false → P.At L s

theorem Plan.standing_start {r : ℤ} (hlim : 1 ≤ P.limit) (hr : ∀ e ∈ L, r ≤ P.rank e) :
    P.Standing L ⟨r, ∅, 0, false⟩ where
  sound := ⟨Nat.zero_le _, fun _ ↦ hlim, le_rfl, fun e he ↦ absurd he (Finset.notMem_empty _)⟩
  at_open _ := by
    refine ⟨Nat.zero_le _, by simp, by simpa using hr, ?_, by simp [Plan.held]⟩
    ext k
    simp [Plan.mem_edge]

section Forward

variable {Q : Reader κ → Prop} {s t : Reader κ} {tr : List (List ε × List ε)}

theorem Plan.Reads.runs (h : P.Reads L Q s tr t) : P.Runs s tr t := by
  induction h with
  | nil s => exact .nil s
  | cons ho hq hpg h ih => exact .cons ho ih

theorem Plan.Reads.of_reached (hQ : ∀ tr u, P.Reads L (fun _ ↦ True) s tr u → u.done = false → Q u)
    (h : P.Reads L (fun _ ↦ True) s tr t) : P.Reads L Q s tr t := by
  induction h with
  | nil s => exact .nil s
  | cons ho hq hpg h ih =>
    exact .cons ho (hQ [] _ (.nil _) ho) hpg (ih (fun tr u h' ↦ hQ _ u (.cons ho trivial hpg h')))

theorem Plan.accept_perm {pg pg' : List ε} (h : pg.Perm pg') :
    (P.accept s pg).1 = (P.accept s pg').1 := by
  have hlast : P.last pg = P.last pg' := by
    cases pg with
    | nil => rw [List.nil_perm.mp h]
    | cons a pg =>
      have hne : pg' ≠ [] := fun h' ↦ List.cons_ne_nil a pg (List.perm_nil.mp (h' ▸ h))
      obtain ⟨⟨x, hx, hxr⟩, hmax⟩ := Plan.last_spec (P := P) (List.cons_ne_nil a pg)
      obtain ⟨⟨y, hy, hyr⟩, hmax'⟩ := Plan.last_spec (P := P) hne
      refine le_antisymm ?_ ?_
      · exact hxr ▸ hmax' x (h.mem_iff.mp hx)
      · exact hyr ▸ hmax y (h.mem_iff.mpr hy)
  have hfresh : (P.fresh s pg).length = (P.fresh s pg').length := by
    simp only [Plan.fresh, List.length_take, (h.filter _).length_eq]
  have hedge : ∀ r, P.edge pg r = P.edge pg' r := fun r ↦
    List.toFinset_eq_of_perm _ _ ((h.filter _).map _)
  simp only [Plan.accept, h.length_eq, hfresh, hlast, hedge]
  split_ifs <;> rfl

theorem Plan.Reads.final_eq {t' : Reader κ} {tr' : List (List ε × List ε)}
    (h : P.Reads L Q s tr t) (h' : P.Reads L Q s tr' t') (hd : t.done = true)
    (hd' : t'.done = true) : t = t' := by
  induction h generalizing tr' t' with
  | nil s => exact (h'.runs.eq_of_done hd).2.symm
  | cons ho hq hpg h ih =>
    cases h' with
    | nil s => rw [ho] at hd'; cases hd'
    | cons ho' hq' hpg' h' =>
      rw [Plan.accept_perm (hpg'.trans hpg.symm)] at h'
      exact ih h' hd hd'

variable (hL : L.Pairwise (fun a b ↦ P.rank a ≤ P.rank b)) (hP : P.Ranked) (hcap : 1 ≤ P.cap)

include hL hP hcap

theorem Plan.Standing.accept {pg : List ε} (hs : P.Standing L s) (ho : s.done = false)
    (hsep : P.Separated L s) (hpg : P.Serves L s pg) : P.Standing L (P.accept s pg).1 where
  sound := Plan.accept_sound hP hs.sound _
  at_open ho' := (hs.at_open ho).accept hL hsep hpg (hs.sound.want_pos ho hcap) ho'

variable (hQ : ∀ u, Q u → P.Separated L u)

include hQ

/-- A run emits the next entries of the source, as many as it counts. -/
theorem Plan.Reads.emissions_perm (h : P.Reads L Q s tr t) (hs : P.Standing L s) :
    (emissions tr).Perm ((L.drop s.emitted).take (t.emitted - s.emitted)) := by
  induction h with
  | nil s => simp
  | @cons s t pg tr ho hq hpg h ih =>
    have hat := hs.at_open ho
    have ih := ih (hs.accept hL hP hcap ho (hQ _ hq) hpg)
    have hem := Plan.accept_emitted_gain hat (hQ _ hq) hpg
    have hgrow := h.runs.emitted
    rw [hem] at ih hgrow
    have hsum : t.emitted - s.emitted =
        (P.gain L s).length + (t.emitted - (s.emitted + (P.gain L s).length)) := by omega
    have hsplit := P.gain_append_drop L s
    rw [emissions_cons, hsum, ← hsplit, List.take_length_add_append]
    exact (Plan.fresh_perm_gain hat (hQ _ hq) hpg).append ih

/-- Entries of a later page never come before those of an earlier one. -/
theorem Plan.Reads.ordered (h : P.Reads L Q s tr t) (hs : P.Standing L s) :
    (tr.map Prod.snd).Pairwise (fun x y ↦ ∀ a ∈ x, ∀ b ∈ y, P.rank a ≤ P.rank b) := by
  induction h with
  | nil s => exact .nil
  | @cons s t pg tr ho hq hpg h ih =>
    have hat := hs.at_open ho
    have hs' := hs.accept hL hP hcap ho (hQ _ hq) hpg
    refine .cons ?_ (ih hs')
    intro y hy a ha b hb
    have ha' : a ∈ P.gain L s :=
      (Plan.fresh_perm_gain hat (hQ _ hq) hpg).mem_iff.mp ha
    have hb' : b ∈ L.drop (s.emitted + (P.gain L s).length) := by
      have hmem : b ∈ emissions tr := List.mem_flatten.mpr ⟨y, hy, hb⟩
      have hperm := h.emissions_perm hL hP hcap hQ hs'
      rw [Plan.accept_emitted_gain hat (hQ _ hq) hpg] at hperm
      exact List.mem_of_mem_take (hperm.mem_iff.mp hmem)
    have hdrop := hL.sublist (List.drop_sublist s.emitted L)
    rw [← P.gain_append_drop L s, List.pairwise_append] at hdrop
    exact hdrop.2.2 a ha' b hb'

theorem Plan.Reads.ended (h : P.Reads L Q s tr t) (hs : P.Standing L s) (ho : s.done = false)
    (hd : t.done = true) :
    t.emitted = min P.limit L.length ∨
      ∃ u, Q u ∧ P.At L u ∧ P.Stuck L u t := by
  induction h with
  | nil s => rw [ho] at hd; cases hd
  | @cons s t pg tr ho' hq hpg h ih =>
    have hat := hs.at_open ho'
    have hs' := hs.accept hL hP hcap ho' (hQ _ hq) hpg
    cases hd' : (P.accept s pg).1.done with
    | false => exact ih hs' hd' hd
    | true =>
      obtain ⟨_, rfl⟩ := h.runs.eq_of_done hd'
      have hw := hs.sound.want_pos ho' hcap
      rcases Plan.accept_done hat (hQ _ hq) hpg hw (hs.sound.emitted_lt ho') hd' with h₁ | h₁
      · exact Or.inl h₁
      · exact Or.inr ⟨s, hq, hat, h₁⟩

end Forward

theorem Plan.Stuck.gain {s t : Reader κ} (hL : L.Pairwise (fun a b ↦ P.rank a ≤ P.rank b))
    (hs : P.At L s) (h : P.Stuck L s t) :
    t.emitted = s.emitted + (P.gain L s).length ∧ ∀ e ∈ P.gain L s, P.rank e = s.frontier := by
  obtain ⟨hall, hlen⟩ := Plan.answer_crowded hL h.crowded
  have hem := h.emitted
  rw [hs.answer_eq, List.length_append, List.length_take] at hlen
  refine ⟨by omega, fun e he ↦ hall e ?_⟩
  rw [hs.answer_eq]
  exact List.mem_append_right _ he

section Distinct

variable (hkeys : (L.map P.key).Nodup) {s t : Reader κ}

include hkeys

theorem Plan.At.separated (hs : P.At L s) : P.Separated L s := by
  intro e he hb
  rw [hs.boundary] at hb
  obtain ⟨a, ha, _, hk⟩ := (P.mem_edge _).mp hb
  rw [← List.take_append_drop s.emitted L, List.map_append, List.nodup_append] at hkeys
  exact hkeys.2.2 _ (List.mem_map_of_mem ha) _ (List.mem_map_of_mem he) hk

theorem Plan.At.card_eq_held (hs : P.At L s) : s.boundary.card = (P.held L s).length := by
  have hsub : ((P.held L s).map P.key).Sublist (L.map P.key) :=
    (List.filter_sublist.trans (List.take_sublist _ _)).map _
  rw [hs.boundary]
  exact (List.toFinset_card_of_nodup (hkeys.sublist hsub)).trans (List.length_map _)

theorem Plan.Reads.separated {tr : List (List ε × List ε)} {Q : Reader κ → Prop}
    (hL : L.Pairwise (fun a b ↦ P.rank a ≤ P.rank b)) (hP : P.Ranked) (hcap : 1 ≤ P.cap)
    (h : P.Reads L Q s tr t) (hs : P.Standing L s) : P.Reads L (P.Separated L) s tr t := by
  induction h with
  | nil s => exact .nil s
  | @cons s t pg tr ho hq hpg h ih =>
    have hsep := (hs.at_open ho).separated hkeys
    exact .cons ho hsep hpg (ih (hs.accept hL hP hcap ho hsep hpg))

/-- With distinct keys only a rank with a whole page of entries stops a run
early, once a page of them has been read. -/
theorem Plan.Stuck.cap_le (hL : L.Pairwise (fun a b ↦ P.rank a ≤ P.rank b)) (hs : P.At L s)
    (h : P.Stuck L s t) :
    P.cap ≤ P.count L t.frontier ∧
      ((L.take t.emitted).filter (fun e ↦ P.rank e = t.frontier)).length = P.cap := by
  have hcard := hs.card_eq_held hkeys
  have hheld := hs.held_le
  have hbelow := h.below
  obtain ⟨hem, hgain⟩ := h.gain hL hs
  have hwant : P.want s = P.cap := by
    rw [h.emitted] at hbelow
    rw [Plan.want] at hbelow ⊢
    omega
  have hnew : (P.gain L s).filter (fun e ↦ P.rank e = s.frontier) = P.gain L s :=
    List.filter_eq_self.mpr (fun e he ↦ decide_eq_true (hgain e he))
  have hlen := h.emitted
  rw [h.frontier]
  refine ⟨hwant ▸ h.crowded, ?_⟩
  rw [hem, Plan.take_add_gain, List.filter_append, hnew, List.length_append, ← Plan.held]
  omega

theorem Plan.Stuck.take_eq (hL : L.Pairwise (fun a b ↦ P.rank a ≤ P.rank b)) (hs : P.At L s)
    (h : P.Stuck L s t) :
    L.take t.emitted = L.filter (fun e ↦ P.rank e < t.frontier) ++
      (L.filter (fun e ↦ P.rank e = t.frontier)).take P.cap := by
  obtain ⟨hcap, hread⟩ := h.cap_le hkeys hL hs
  obtain ⟨hem, hgain⟩ := h.gain hL hs
  have hafter : (L.drop t.emitted).filter (fun e ↦ P.rank e < t.frontier) = [] := by
    apply List.filter_eq_nil_iff.mpr
    intro e he hr
    rw [h.emitted, ← List.drop_drop] at he
    have := hs.after e (List.mem_of_mem_drop he)
    have := of_decide_eq_true hr
    rw [h.frontier] at this
    omega
  have hbefore : ∀ e ∈ L.take t.emitted, P.rank e ≤ t.frontier := by
    rw [hem, Plan.take_add_gain, h.frontier]
    intro e he
    rcases List.mem_append.mp he with he | he
    · exact hs.before e he
    · exact (hgain e he).le
  have hnum : t.emitted = (L.filter (fun e ↦ P.rank e < t.frontier)).length + P.cap := by
    have hsplit := congrArg List.length
      (Plan.filter_lt_append_filter_le (hL.sublist (List.take_sublist t.emitted L)) t.frontier)
    have hat : (L.take t.emitted).filter (fun e ↦ t.frontier ≤ P.rank e) =
        (L.take t.emitted).filter (fun e ↦ P.rank e = t.frontier) := by
      apply List.filter_congr
      intro e he
      have := hbefore e he
      exact decide_eq_decide.mpr (by omega)
    have hlt : L.filter (fun e ↦ P.rank e < t.frontier) =
        (L.take t.emitted).filter (fun e ↦ P.rank e < t.frontier) := by
      conv_lhs => rw [← List.take_append_drop t.emitted L, List.filter_append, hafter]
      exact List.append_nil _
    have hle := hs.emitted_add_gain_le
    rw [List.length_append, hat, hread, ← hlt, List.length_take] at hsplit
    omega
  conv_lhs => rw [← Plan.filter_lt_append_filter_le hL t.frontier, Plan.filter_le_eq hL]
  rw [hnum, List.take_length_add_append]
  congr 1
  exact List.take_append_of_le_length hcap

end Distinct

section Backward

variable {s t : Reader κ} {tr : List (List ε × List ε)}

theorem Plan.exists_run (hP : P.Ranked) (hcap : 1 ≤ P.cap) (hs : P.Sound s) :
    ∃ tr t, P.Reads L (fun _ ↦ True) s tr t ∧ t.done = true := by
  induction hn : P.limit - s.emitted using Nat.strong_induction_on generalizing s with
  | _ n ih =>
    cases hd : s.done with
    | true => exact ⟨[], s, .nil s, hd⟩
    | false =>
      have hlt := hs.emitted_lt hd
      have hem := P.accept_emitted s (P.answer L s)
      have hs' := Plan.accept_sound hP hs (P.answer L s)
      cases hd' : (P.accept s (P.answer L s)).1.done with
      | true => exact ⟨_, _, .cons hd trivial (List.Perm.refl _) (.nil _), hd'⟩
      | false =>
        obtain ⟨_, hne⟩ := Plan.accept_progress hs hd hcap _ hd'
        have hpos := List.length_pos_iff.mpr hne
        obtain ⟨tr, t, h, ht⟩ := ih _ (by omega) hs' rfl
        exact ⟨_, t, .cons hd trivial (List.Perm.refl _) h, ht⟩

/-- The most a run can still emit: unread entries whose key is not taken. -/
def Plan.pending (P : Plan ε κ) (L : List ε) (s : Reader κ) : ℕ :=
  (L.filter (fun e ↦ s.frontier ≤ P.rank e ∧ P.key e ∉ s.boundary)).length

def Plan.unserved (P : Plan ε κ) (L : List ε) (s : Reader κ) : List ε :=
  (L.filter (fun e ↦ s.frontier ≤ P.rank e)).drop (P.want s)

theorem Plan.pending_eq (L : List ε) (s : Reader κ) : P.pending L s =
    ((P.answer L s).filter (fun e ↦ P.key e ∉ s.boundary)).length +
      ((P.unserved L s).filter (fun e ↦ P.key e ∉ s.boundary)).length := by
  rw [← List.length_append, ← List.filter_append, Plan.answer, Plan.unserved,
    List.take_append_drop, List.filter_filter]
  simp only [Plan.pending, Bool.decide_and, Bool.and_comm]

theorem Plan.fresh_length_le_answer {pg : List ε} (hpg : P.Serves L s pg) :
    (P.fresh s pg).length ≤ ((P.answer L s).filter (fun e ↦ P.key e ∉ s.boundary)).length := by
  rw [← (List.Perm.filter _ hpg).length_eq]
  exact List.length_take_le' _ _

theorem Plan.pending_advanced (hs : P.Sound s) {pg : List ε} (hpg : P.Serves L s pg)
    (h : s.frontier < P.last pg) (emitted : ℕ) :
    P.pending L ⟨P.last pg, P.edge pg (P.last pg), emitted, false⟩ ≤
      ((P.unserved L s).filter (fun e ↦ P.key e ∉ s.boundary)).length := by
  have hbeyond : L.filter (fun e ↦ P.last pg ≤ P.rank e ∧ P.key e ∉ P.edge pg (P.last pg)) =
      (P.answer L s ++ P.unserved L s).filter
        (fun e ↦ P.last pg ≤ P.rank e ∧ P.key e ∉ P.edge pg (P.last pg)) := by
    rw [Plan.answer, Plan.unserved, List.take_append_drop, List.filter_filter]
    apply List.filter_congr
    intro e _
    simp only [Bool.decide_and, Bool.and_assoc]
    by_cases hr : P.last pg ≤ P.rank e
    · simp [hr, (h.trans_le hr).le]
    · simp [hr]
  have hserved : (P.answer L s).filter
      (fun e ↦ P.last pg ≤ P.rank e ∧ P.key e ∉ P.edge pg (P.last pg)) = [] := by
    apply List.filter_eq_nil_iff.mpr
    intro e he hp
    obtain ⟨hr, hk⟩ := of_decide_eq_true hp
    have hmem : e ∈ pg := (List.Perm.mem_iff hpg).mpr he
    have hle := (Plan.last_spec (P := P) (List.ne_nil_of_mem hmem)).2 e hmem
    exact hk ((P.mem_edge pg).mpr ⟨e, hmem, le_antisymm hle hr, rfl⟩)
  rw [Plan.pending, hbeyond, List.filter_append, hserved, List.nil_append,
    ← List.countP_eq_length_filter, ← List.countP_eq_length_filter]
  apply List.countP_mono_left
  intro e _ hp
  obtain ⟨hr, _⟩ := of_decide_eq_true hp
  apply decide_eq_true
  intro hb
  exact absurd (hs.at_frontier e hb) (h.trans_le hr).ne'

theorem Plan.accept_pending (hs : P.Sound s) {pg : List ε} (hpg : P.Serves L s pg) :
    (P.accept s pg).1.emitted +
        (if (P.accept s pg).1.done then 0 else P.pending L (P.accept s pg).1) ≤
      s.emitted + P.pending L s := by
  have hpend := P.pending_eq L s
  have hfresh := Plan.fresh_length_le_answer hpg
  rw [P.accept_emitted]
  cases P.accept_outcome s pg with
  | finished h ht | stalled hfull hopen h ht =>
    rw [ht]
    simp only [if_true]
    omega
  | advanced hfull hopen h ht =>
    rw [ht]
    simp only [Bool.false_eq_true, if_false]
    have hrest := Plan.pending_advanced hs hpg h (s.emitted + (P.fresh s pg).length)
    omega

theorem Plan.Reads.emitted_le {Q : Reader κ → Prop} (hP : P.Ranked) (h : P.Reads L Q s tr t)
    (hs : P.Sound s) : t.emitted ≤ s.emitted + (if s.done then 0 else P.pending L s) := by
  induction h with
  | nil s => exact Nat.le_add_right _ _
  | @cons s t pg tr ho hq hpg h ih =>
    have h₁ := ih (Plan.accept_sound hP hs _)
    have h₂ := Plan.accept_pending hs hpg
    rw [ho, if_neg Bool.false_ne_true]
    exact h₁.trans h₂

theorem Plan.At.pending_lt (hs : P.At L s) (hsep : ¬ P.Separated L s) :
    s.emitted + P.pending L s < L.length := by
  have hle := hs.le_length
  have hsplit : L.filter (fun e ↦ s.frontier ≤ P.rank e ∧ P.key e ∉ s.boundary) =
      (L.drop s.emitted).filter (fun e ↦ P.key e ∉ s.boundary) := by
    conv_lhs => rw [← List.take_append_drop s.emitted L, List.filter_append]
    have htake : (L.take s.emitted).filter
        (fun e ↦ s.frontier ≤ P.rank e ∧ P.key e ∉ s.boundary) = [] := by
      apply List.filter_eq_nil_iff.mpr
      intro e he hp
      obtain ⟨hr, hk⟩ := of_decide_eq_true hp
      refine hk (hs.held_mem (List.mem_filter.mpr ⟨he, decide_eq_true ?_⟩))
      exact le_antisymm (hs.before e he) hr
    rw [htake, List.nil_append]
    apply List.filter_congr
    intro e he
    simp [hs.after e he]
  have hlt : ((L.drop s.emitted).filter (fun e ↦ P.key e ∉ s.boundary)).length <
      (L.drop s.emitted).length := by
    simp only [Plan.Separated, not_forall, not_not] at hsep
    obtain ⟨e, he, hk⟩ := hsep
    exact List.length_filter_lt_length_iff_exists.mpr ⟨e, he, by simpa using hk⟩
  rw [List.length_drop] at hlt
  rw [Plan.pending, hsplit]
  omega

section Complete

variable (hL : L.Pairwise (fun a b ↦ P.rank a ≤ P.rank b)) (hP : P.Ranked) (hcap : 1 ≤ P.cap)

include hL hP hcap

theorem Plan.Standing.emitted_le_length {Q : Reader κ → Prop} (hQ : ∀ u, Q u → P.Separated L u)
    (h : P.Reads L Q s tr t) (hs : P.Standing L s) (ho : s.done = false) :
    t.emitted ≤ L.length := by
  have hle := (hs.at_open ho).le_length
  have hlen := (h.emissions_perm hL hP hcap hQ hs).length_eq
  have hem := h.runs.emitted
  rw [List.length_take, List.length_drop] at hlen
  omega

/-- A state from which every run reads the whole source separates its keys
and has room to go on. -/
theorem Plan.Standing.of_complete (hs : P.Standing L s) (ho : s.done = false)
    (hlim : L.length ≤ P.limit)
    (hall : ∀ tr t, P.Reads L (fun _ ↦ True) s tr t → t.done = true → t.emitted = L.length) :
    P.Separated L s ∧ P.Roomy L s := by
  have hat := hs.at_open ho
  have hsep : P.Separated L s := by
    by_contra hsep
    obtain ⟨tr, t, h, hd⟩ := Plan.exists_run (L := L) hP hcap hs.sound
    have hle := h.emitted_le hP hs.sound
    rw [ho, if_neg Bool.false_ne_true, hall tr t h hd] at hle
    have := hat.pending_lt hsep
    omega
  refine ⟨hsep, fun hc ↦ ?_⟩
  -- the canonical answer lies at the frontier, so the run ends with it
  have hserve : P.Serves L s (P.answer L s) := List.Perm.refl _
  obtain ⟨hfront, hlen⟩ := Plan.answer_crowded hL hc
  have hw := hs.sound.want_pos ho hcap
  have hd : (P.accept s (P.answer L s)).1.done = true := by
    cases P.accept_outcome s (P.answer L s) with
    | finished h ht | stalled hfull hopen h ht => rw [ht]
    | advanced hfull hopen h ht =>
      have hne : P.answer L s ≠ [] := List.length_pos_iff.mp (by omega)
      obtain ⟨⟨m, hm, hmr⟩, _⟩ := Plan.last_spec (P := P) hne
      have := hfront m hm
      omega
  have hem := hall _ _ (.cons ho trivial hserve (.nil _)) hd
  rw [Plan.accept_emitted_gain hat hsep hserve] at hem
  have hglen := List.length_take_le (P.want s - (P.held L s).length) (L.drop s.emitted)
  rw [← Plan.gain] at hglen
  omega

/-- Runs over a source within the limit read all of it exactly when no state
on the way confuses two entries or gets stuck. -/
theorem Plan.Standing.complete_iff (hs : P.Standing L s) (ho : s.done = false)
    (hlim : L.length ≤ P.limit) :
    (∀ tr t, P.Reads L (fun _ ↦ True) s tr t → t.done = true → t.emitted = L.length) ↔
      ∀ tr u, P.Reads L (fun _ ↦ True) s tr u → u.done = false →
        P.Separated L u ∧ P.Roomy L u := by
  constructor
  · intro hall tr u h hu
    induction h with
    | nil s => exact hs.of_complete hL hP hcap hu hlim hall
    | @cons s t pg tr ho' hq hpg h ih =>
      have hsep := (hs.of_complete hL hP hcap ho' hlim hall).1
      cases hd : (P.accept s pg).1.done with
      | true =>
        obtain ⟨_, rfl⟩ := h.runs.eq_of_done hd
        rw [hd] at hu
        cases hu
      | false =>
        exact ih (hs.accept hL hP hcap ho' hsep hpg) hd
          (fun tr t h' ↦ hall _ t (.cons ho' trivial hpg h')) hu
  · intro hgood tr t h hd
    have hgoodRun := h.of_reached hgood
    have hle := hs.emitted_le_length hL hP hcap (fun u hu ↦ hu.1) hgoodRun ho
    rcases hgoodRun.ended hL hP hcap (fun u hu ↦ hu.1) hs ho hd with h' | ⟨u, hu, hat, hst⟩
    · omega
    · have hroom := hu.2 hst.crowded
      have hem := hst.emitted
      have hbelow := hst.below
      omega

end Complete

end Backward

end Paging
