import DuckdbLoki.Paging.Complete

namespace Paging

variable {ε κ : Type} [DecidableEq κ] {P : Plan ε κ} {L : List ε} {m : ℕ}

section Settled

variable (P) (L)

def Plan.repeats (r : ℤ) : ℕ := P.count L r - (P.edge L r).card

def Plan.upto (r : ℤ) : ℕ := (L.filter (fun e ↦ P.rank e ≤ r)).length

/-- A first page of more than `m` entries never ends between two entries with
one key, and the limit leaves room for the repeated keys at its end. -/
structure Plan.Settled (m : ℕ) : Prop where
  cut : ∀ n, m < n → ∀ a ∈ L.take n, ∀ e ∈ L.drop n, P.key a ≠ P.key e
  room : ∀ h : m + 1 < L.length,
    min (P.upto L (P.rank L[m]) + 1) L.length + P.repeats L (P.rank L[m]) ≤ P.limit

end Settled

def Plan.withCap (P : Plan ε κ) (c : ℕ) : Plan ε κ := { P with cap := c }

section Cut

omit [DecidableEq κ] in
theorem Plan.keys_drop_nodup (hcut : ∀ n, m < n → ∀ a ∈ L.take n, ∀ e ∈ L.drop n, P.key a ≠ P.key e)
    {n : ℕ} (hn : m ≤ n) : ((L.drop n).map P.key).Nodup := by
  rw [List.Nodup, List.pairwise_map, List.pairwise_iff_getElem]
  intro i j hi hj hij
  rw [List.getElem_drop, List.getElem_drop]
  rw [List.length_drop] at hi hj
  refine hcut (n + j) (by omega) _ ?_ _ ?_
  · exact List.mem_take_iff_getElem.mpr ⟨n + i, by omega, rfl⟩
  · exact List.mem_drop_iff_getElem.mpr ⟨0, by omega, rfl⟩

omit [DecidableEq κ] in
theorem Plan.rank_le_getElem (hL : L.Pairwise (fun a b ↦ P.rank a ≤ P.rank b)) (h : m < L.length)
    {a : ε} (ha : a ∈ L.take (m + 1)) : P.rank a ≤ P.rank L[m] := by
  obtain ⟨i, hi, rfl⟩ := List.mem_take_iff_getElem.mp ha
  rcases Nat.lt_or_ge i m with hlt | hge
  · exact List.pairwise_iff_getElem.mp hL i m (by omega) h hlt
  · obtain rfl : i = m := by omega
    exact le_rfl

variable (hcut : ∀ n, m < n → ∀ a ∈ L.take n, ∀ e ∈ L.drop n, P.key a ≠ P.key e)

include hcut

theorem Plan.repeats_eq_zero {r : ℤ} (h : ∀ a ∈ L.take m, P.rank a ≠ r) :
    P.repeats L r = 0 := by
  have hgroup : L.filter (fun e ↦ P.rank e = r) =
      (L.drop m).filter (fun e ↦ P.rank e = r) := by
    conv_lhs => rw [← List.take_append_drop m L, List.filter_append]
    rw [List.filter_eq_nil_iff.mpr (fun a ha hr ↦ h a ha (of_decide_eq_true hr)),
      List.nil_append]
  have hnodup : ((L.filter (fun e ↦ P.rank e = r)).map P.key).Nodup := by
    rw [hgroup]
    exact (Plan.keys_drop_nodup hcut le_rfl).sublist (List.filter_sublist.map _)
  rw [Plan.repeats, Plan.edge, List.toFinset_card_of_nodup hnodup, List.length_map, Plan.count,
    Nat.sub_self]

variable {s : Reader κ}

theorem Plan.At.repeats_eq (hs : P.At L s) (hm : m < s.emitted) :
    P.repeats L s.frontier + s.boundary.card = (P.held L s).length := by
  let rest := (L.drop s.emitted).filter (fun e ↦ P.rank e = s.frontier)
  have hcount : P.count L s.frontier = (P.held L s).length + rest.length := P.count_frontier L s
  have hedge : P.edge L s.frontier = s.boundary ∪ (rest.map P.key).toFinset := by
    rw [hs.boundary, Plan.edge, Plan.edge, ← List.toFinset_append, ← List.map_append,
      ← List.filter_append, List.take_append_drop]
  have hdisj : Disjoint s.boundary (rest.map P.key).toFinset := by
    rw [Finset.disjoint_left]
    intro k hk hk'
    rw [hs.boundary] at hk
    obtain ⟨a, ha, _, hak⟩ := (P.mem_edge _).mp hk
    obtain ⟨e, he, hek⟩ := List.mem_map.mp (List.mem_toFinset.mp hk')
    exact hcut _ hm a ha e (List.mem_filter.mp he).1 (hak.trans hek.symm)
  have hnodup : (rest.map P.key).Nodup :=
    (Plan.keys_drop_nodup hcut hm.le).sublist (List.filter_sublist.map _)
  have hcard : (P.edge L s.frontier).card = s.boundary.card + rest.length := by
    rw [hedge, Finset.card_union_of_disjoint hdisj, List.toFinset_card_of_nodup hnodup,
      List.length_map]
  have hle := hs.card_le_held
  rw [Plan.repeats, hcount, hcard]
  omega

end Cut

theorem Plan.At.upto_eq {s : Reader κ} (hs : P.At L s) :
    P.upto L s.frontier + (P.held L s).length = s.emitted + P.count L s.frontier := by
  have hread : (L.take s.emitted).filter (fun e ↦ P.rank e ≤ s.frontier) = L.take s.emitted :=
    List.filter_eq_self.mpr (fun e he ↦ decide_eq_true (hs.before e he))
  have hrest : (L.drop s.emitted).filter (fun e ↦ P.rank e ≤ s.frontier) =
      (L.drop s.emitted).filter (fun e ↦ P.rank e = s.frontier) := by
    apply List.filter_congr
    intro e he
    have := hs.after e he
    exact decide_eq_decide.mpr (by omega)
  have hupto : P.upto L s.frontier = s.emitted +
      ((L.drop s.emitted).filter (fun e ↦ P.rank e = s.frontier)).length := by
    rw [Plan.upto]
    conv_lhs => rw [← List.take_append_drop s.emitted L, List.filter_append, hread, hrest]
    rw [List.length_append, List.length_take, Nat.min_eq_left hs.le_length]
  have hcount := P.count_frontier L s
  omega

theorem Plan.At.answer_start {s : Reader κ} (hs : P.At L s) (hz : s.emitted = 0) :
    P.held L s = [] ∧ P.answer L s = L.take (P.want s) := by
  have hheld : P.held L s = [] := by simp [Plan.held, hz]
  refine ⟨hheld, ?_⟩
  rw [hs.answer_eq, hheld, List.take_nil, List.nil_append, Plan.gain, hz, hheld, List.drop_zero,
    List.length_nil, Nat.sub_zero]

section Caps

variable {s u : Reader κ} (hL : L.Pairwise (fun a b ↦ P.rank a ≤ P.rank b))
  (hm : ∀ r, P.count L r ≤ m) (hcap : m < P.cap)

include hm hcap

theorem Plan.At.first_page (hs : P.At L s) (hz : s.emitted = 0) (hb : s.boundary = ∅)
    (hmore : P.cap < L.length) (hlim : L.length ≤ P.limit) :
    (P.accept s (P.answer L s)).1.done = false ∧
      (P.accept s (P.answer L s)).1.emitted = P.cap ∧
      ∃ a ∈ L.take P.cap, P.rank a = (P.accept s (P.answer L s)).1.frontier := by
  have hwant : P.want s = P.cap := by
    rw [Plan.want, hz, hb, Finset.card_empty]
    omega
  obtain ⟨hheld, hanswer⟩ := hs.answer_start hz
  have hsep : P.Separated L s := by
    intro e _
    rw [hb]
    exact Finset.notMem_empty _
  have hlen : (P.answer L s).length = P.cap := by
    rw [hanswer, hwant, List.length_take]
    omega
  have hem := Plan.accept_emitted_gain hs hsep (List.Perm.refl (P.answer L s))
  have hgain : (P.gain L s).length = P.cap := by
    rw [Plan.gain, hz, hheld, hwant, List.length_take, List.drop_zero, List.length_nil]
    omega
  rw [hz, hgain, Nat.zero_add] at hem
  have hfresh := P.accept_emitted s (P.answer L s)
  have hne : P.answer L s ≠ [] := List.length_pos_iff.mp (by omega)
  obtain ⟨⟨a, ha, hlast⟩, _⟩ := Plan.last_spec (P := P) hne
  have hmoved : ∃ b n, (P.accept s (P.answer L s)).1 = ⟨P.last (P.answer L s), b, n, false⟩ := by
    cases P.accept_outcome s (P.answer L s) with
    | finished h ht => omega
    | stalled hfull hopen h ht =>
      have hcrowded := Plan.crowded_of_stalled (List.Perm.refl _) (by omega) hfull h
      have hcount := hm s.frontier
      omega
    | advanced hfull hopen h ht => exact ⟨_, _, ht⟩
  obtain ⟨b, n, hmoved⟩ := hmoved
  rw [hanswer, hwant] at ha
  exact ⟨by rw [hmoved], hem, a, ha, by rw [hmoved, hlast]⟩

/-- Past a page of more than `m` entries the reader confuses nothing and has
room to go on. -/
theorem Plan.Settled.good (hL : L.Pairwise (fun a b ↦ P.rank a ≤ P.rank b))
    (hset : P.Settled L m) (hlim : L.length ≤ P.limit) (hs : P.At L s)
    (hpast : s.emitted = 0 ∧ s.boundary = ∅ ∨ m < s.emitted) :
    P.Separated L s ∧ P.Roomy L s := by
  have hcount := hm s.frontier
  rcases hpast with ⟨hz, hb⟩ | hpast
  · refine ⟨fun e _ ↦ by rw [hb]; exact Finset.notMem_empty _, fun hc ↦ ?_⟩
    obtain ⟨hheld, _⟩ := hs.answer_start hz
    rw [Plan.want, hz, hb, Finset.card_empty] at hc
    rw [Plan.want, hz, hb, hheld, Finset.card_empty, List.length_nil]
    omega
  · refine ⟨fun e he hb ↦ ?_, fun hc ↦ ?_⟩
    · rw [hs.boundary] at hb
      obtain ⟨a, ha, _, hk⟩ := (P.mem_edge _).mp hb
      exact hset.cut _ hpast a ha e he hk
    · have hrep := hs.repeats_eq hset.cut hpast
      have hupto := hs.upto_eq
      have hle := hs.le_length
      have hwant : P.want s = P.limit - s.emitted + s.boundary.card := by
        rw [Plan.want] at hc ⊢
        omega
      rw [hwant] at hc ⊢
      by_cases hzero : P.repeats L s.frontier = 0
      · omega
      by_cases hend : L.length ≤ m + 1
      · omega
      have hlen : m < L.length := by omega
      have hlast : L[m] ∈ L.take s.emitted :=
        List.mem_take_iff_getElem.mpr ⟨m, by omega, rfl⟩
      have hfront : P.rank L[m] = s.frontier := by
        refine le_antisymm (hs.before _ hlast) ?_
        by_contra hlt
        refine hzero (Plan.repeats_eq_zero hset.cut (fun a ha har ↦ hlt ?_))
        rw [← har]
        exact Plan.rank_le_getElem hL hlen (List.take_subset_take_left L m.le_succ ha)
      have hroom := hset.room (by omega)
      rw [hfront] at hroom
      omega

omit hm in
theorem Plan.At.past_accept {pg : List ε} (hs : P.At L s) (hsep : P.Separated L s)
    (hpg : P.Serves L s pg) (hpast : s.emitted = 0 ∧ s.boundary = ∅ ∨ m < s.emitted)
    (ho : (P.accept s pg).1.done = false) : m < (P.accept s pg).1.emitted := by
  have hem := Plan.accept_emitted_gain hs hsep hpg
  rw [hem]
  rcases hpast with ⟨hz, hb⟩ | hpast
  · obtain ⟨hheld, hanswer⟩ := hs.answer_start hz
    have hlen := List.Perm.length_eq hpg
    rw [hanswer, List.length_take] at hlen
    have hgain : (P.gain L s).length = min (P.want s) L.length := by
      rw [Plan.gain, hz, hheld, List.length_take, List.drop_zero, List.length_nil, Nat.sub_zero]
    have hfresh := P.accept_emitted s pg
    cases P.accept_outcome s pg with
    | finished h ht | stalled hfull hopen h ht => rw [ht] at ho; cases ho
    | advanced hfull hopen h ht =>
      rw [Plan.want, hz, hb, Finset.card_empty] at *
      omega
  · omega

theorem Plan.Settled.complete (hL : L.Pairwise (fun a b ↦ P.rank a ≤ P.rank b)) (hP : P.Ranked)
    (hset : P.Settled L m) (hlim : L.length ≤ P.limit) (hs : P.Standing L s)
    (ho : s.done = false) (hz : s.emitted = 0) (hb : s.boundary = ∅)
    {tr : List (List ε × List ε)} {t : Reader κ} (h : P.Reads L (fun _ ↦ True) s tr t)
    (hd : t.done = true) : t.emitted = L.length := by
  have hone : 1 ≤ P.cap := by omega
  refine (hs.complete_iff hL hP hone ho hlim).mpr ?_ tr t h hd
  intro tr' u h' hu
  have hpast : s.done = false → s.emitted = 0 ∧ s.boundary = ∅ ∨ m < s.emitted :=
    fun _ ↦ Or.inl ⟨hz, hb⟩
  clear h hd ho hz hb
  induction h' with
  | nil s => exact hset.good hm hcap hL hlim (hs.at_open hu) (hpast hu)
  | @cons s u pg tr ho hq hpg h ih =>
    have hat := hs.at_open ho
    have hsep := (hset.good hm hcap hL hlim hat (hpast ho)).1
    exact ih (hs.accept hL hP hone ho hsep hpg) hu
      (fun ho' ↦ Or.inr (hat.past_accept hcap hsep hpg (hpast ho) ho'))

end Caps

theorem Plan.Settled.of_length_le (h : L.length ≤ m + 1) : P.Settled L m where
  cut n hn a _ e he := by
    rw [List.drop_of_length_le (by omega)] at he
    exact absurd he List.not_mem_nil
  room h' := by omega

section Every

variable (hL : L.Pairwise (fun a b ↦ P.rank a ≤ P.rank b)) (hP : P.Ranked)

structure Plan.Settling (P : Plan ε κ) (L : List ε) (n : ℕ) (t : Reader κ) : Prop where
  at_page : (P.withCap n).At L t
  emitted : t.emitted = n
  separated : P.Separated L t
  roomy : (P.withCap n).Roomy L t
  frontier : ∃ a ∈ L.take n, P.rank a = t.frontier

include hL hP in
theorem Plan.settling_of_complete (hm : ∀ r, P.count L r ≤ m) (hlim : L.length ≤ P.limit)
    {s : Reader κ} {n : ℕ} (hn : m < n) (hs : (P.withCap n).Standing L s) (ho : s.done = false)
    (hz : s.emitted = 0) (hb : s.boundary = ∅)
    (hcomplete : ∀ tr t, (P.withCap n).Reads L (fun _ ↦ True) s tr t → t.done = true →
      t.emitted = L.length) (hlen : n < L.length) : ∃ t, P.Settling L n t := by
  have hone : 1 ≤ (P.withCap n).cap := Nat.one_le_of_lt hn
  have hgood := (Plan.Standing.complete_iff (P := P.withCap n) hL hP hone hs ho hlim).mp hcomplete
  have hserve : (P.withCap n).Serves L s ((P.withCap n).answer L s) := List.Perm.refl _
  obtain ⟨ho', hem, hfront⟩ :=
    Plan.At.first_page (P := P.withCap n) hm hn (hs.at_open ho) hz hb hlen hlim
  obtain ⟨hsep, hroom⟩ := hgood _ _ (.cons ho trivial hserve (.nil _)) ho'
  have hsep₀ := (hgood [] _ (.nil _) ho).1
  have hnext := Plan.Standing.accept (P := P.withCap n) hL hP hone hs ho hsep₀ hserve
  exact ⟨_, hnext.at_open ho', hem, hsep, hroom, hfront⟩

include hP in
theorem Plan.Settling.cut {n : ℕ} {t : Reader κ} (h : P.Settling L n t) :
    ∀ a ∈ L.take n, ∀ e ∈ L.drop n, P.key a ≠ P.key e := by
  intro a ha e he hk
  rw [← h.emitted] at ha he
  have hrank : P.rank a = P.rank e := hP a e hk
  have hfront : P.rank a = t.frontier :=
    le_antisymm (h.at_page.before a ha) (hrank ▸ h.at_page.after e he)
  apply h.separated e he
  rw [h.at_page.boundary]
  exact (Plan.mem_edge _ _).mpr ⟨a, ha, hfront, hk⟩

include hL in
theorem Plan.Settling.room (hm : ∀ r, P.count L r ≤ m) (hlim : L.length ≤ P.limit)
    (hcut : ∀ n, m < n → ∀ a ∈ L.take n, ∀ e ∈ L.drop n, P.key a ≠ P.key e) {t : Reader κ}
    (h : P.Settling L (m + 1) t) (hlen : m + 1 < L.length) :
    min (P.upto L (P.rank L[m]) + 1) L.length + P.repeats L (P.rank L[m]) ≤ P.limit := by
  have hat := h.at_page
  have hem := h.emitted
  obtain ⟨a, ha, hfront⟩ := h.frontier
  have hlast : P.rank L[m] = t.frontier := by
    apply le_antisymm
    · apply hat.before
      exact List.mem_take_iff_getElem.mpr ⟨m, by omega, rfl⟩
    · rw [← hfront]
      exact Plan.rank_le_getElem hL (by omega) ha
  have hrep := Plan.At.repeats_eq (P := P.withCap (m + 1)) hcut hat (by omega)
  have hupto := hat.upto_eq
  have hcard := hat.card_le_held
  have hcount : (P.withCap (m + 1)).count L t.frontier ≤ m := hm _
  have hroom := h.roomy
  rw [Plan.Roomy, Plan.want, hem] at hroom
  simp only [Plan.withCap] at hroom hcount hrep hupto hcard ⊢
  rw [hlast]
  simp only [Plan.repeats, Plan.upto, Plan.held, Plan.count, Plan.edge] at *
  omega

include hL hP in
/-- The sources which are read whole at every page size above `m`. -/
theorem Plan.complete_caps_iff (hm : ∀ r, P.count L r ≤ m) (hlim : L.length ≤ P.limit)
    (hpos : 1 ≤ P.limit) {r : ℤ} (hr : ∀ e ∈ L, r ≤ P.rank e) :
    (∀ c, m < c → c ≤ P.limit → ∀ tr t, (P.withCap c).Reads L (fun _ ↦ True) ⟨r, ∅, 0, false⟩ tr t →
        t.done = true → t.emitted = L.length) ↔ P.Settled L m := by
  have hst : ∀ c, (P.withCap c).Standing L ⟨r, ∅, 0, false⟩ := fun c ↦
    Plan.standing_start (P := P.withCap c) hpos hr
  constructor
  · intro hall
    have hpage : ∀ n, m < n → n < L.length → ∃ t, P.Settling L n t := fun n hn hlen ↦
      Plan.settling_of_complete hL hP hm hlim hn (hst n) rfl rfl rfl (hall n hn (by omega)) hlen
    have hcut : ∀ n, m < n → ∀ a ∈ L.take n, ∀ e ∈ L.drop n, P.key a ≠ P.key e := by
      intro n hn a ha e he
      have hlen := List.length_pos_of_mem he
      rw [List.length_drop, Nat.sub_pos_iff_lt] at hlen
      obtain ⟨t, ht⟩ := hpage n hn hlen
      exact ht.cut hP a ha e he
    refine ⟨hcut, ?_⟩
    intro hlen
    obtain ⟨t, ht⟩ := hpage (m + 1) m.lt_succ_self hlen
    exact ht.room hL hm hlim hcut hlen
  · intro hset c hc _ tr t h hd
    exact Plan.Settled.complete (P := P.withCap c) hm hc hL hP ⟨hset.cut, hset.room⟩ hlim (hst c)
      rfl rfl rfl h hd

end Every

end Paging
