import DuckdbLoki.Pager

namespace DuckdbLoki.StreamPager

open Paging

/-- Position in paging order: backward paging runs through time downwards. -/
def rank (p : StreamPager) (t : ℤ) : ℤ := if p.backward then -t else t

theorem rank_inj {p : StreamPager} {t u : ℤ} : p.rank t = p.rank u ↔ t = u := by
  unfold rank
  split_ifs
  · exact Int.neg_inj
  · exact Iff.rfl

def plan (p : StreamPager) : Plan LokiRow Str where
  rank r := p.rank r.tsNs
  key := LokiRow.key
  limit := p.userLimit.toNat
  cap := p.perRequestCap.toNat

/-- What a scan moves. The end of a request is exclusive, so the frontier of a
backward scan is the nanosecond below its cursor. -/
def reader (p : StreamPager) : Reader Str where
  frontier := if p.backward then 1 - p.cursorNs else p.cursorNs
  boundary := p.boundaryKeys
  emitted := p.emitted.toNat
  done := p.done

theorem plan_ranked (p : StreamPager) : p.plan.Ranked := by
  intro a b h
  exact congrArg p.rank (entryKey_tsNs h)

section Scan

def scanRow (p : StreamPager) (st : PageScan) (r : LokiRow) : PageScan :=
  p.scanEntry r.labels st ⟨r.tsNs, r.line, r.structuredMetadata⟩

theorem scanPage_eq_foldl (p : StreamPager) (page : List StreamChunk) :
    p.scanPage page = (pageRows page).foldl p.scanRow ⟨[], 0, false, 0, p.emitted⟩ := by
  simp only [scanPage, pageRows, StreamChunk.rows, List.foldl_flatMap, List.foldl_map, scanRow]

structure PageScan.Spec (p : StreamPager) (l : List LokiRow) (st : PageScan) : Prop where
  rows : st.rows = p.plan.fresh p.reader l
  emitted : st.emitted = p.emitted + st.rows.length
  pageCount : st.pageCount = l.length
  haveExtreme : st.haveExtreme = !l.isEmpty
  extreme : p.rank st.extremeNs = p.plan.last l

theorem last_concat {ε κ : Type} (P : Plan ε κ) {l : List ε} (hl : l ≠ []) (e : ε) :
    P.last (l ++ [e]) = max (P.last l) (P.rank e) := by
  obtain ⟨a, l, rfl⟩ := List.exists_cons_of_ne_nil hl
  simp only [Plan.last, List.map_append, List.map_cons, List.map_nil, List.cons_append,
    List.max?_cons', Option.getD_some, List.foldl_append, List.foldl_cons, List.foldl_nil]

theorem fresh_concat (p : StreamPager) (l : List LokiRow) (r : LokiRow) :
    p.plan.fresh p.reader (l ++ [r]) =
      if p.plan.limit - p.reader.emitted ≤ (p.plan.fresh p.reader l).length ∨
        r.key ∈ p.boundaryKeys then p.plan.fresh p.reader l
      else p.plan.fresh p.reader l ++ [r] := by
  simp only [Plan.fresh, List.filter_append, List.length_take, List.take_append]
  by_cases hk : r.key ∈ p.boundaryKeys
  · have hnil : [r].filter (fun e ↦ p.plan.key e ∉ p.reader.boundary) = [] := by
      simpa using show p.plan.key r ∈ p.reader.boundary from hk
    rw [if_pos (Or.inr hk), hnil, List.take_nil, List.append_nil]
  · have hone : [r].filter (fun e ↦ p.plan.key e ∉ p.reader.boundary) = [r] := by
      simpa using show p.plan.key r ∉ p.reader.boundary from hk
    rw [hone]
    split_ifs with h
    · rcases h with h | h
      · rw [Nat.sub_eq_zero_of_le (h.trans (Nat.min_le_right _ _)), List.take_zero,
          List.append_nil]
      · exact absurd h hk
    · push Not at h
      rw [List.take_of_length_le (l := [r])]
      rw [List.length_singleton]
      omega

theorem scanRow_spec {p : StreamPager} (hp : 0 ≤ p.emitted) (hl : p.emitted ≤ p.userLimit)
    {l : List LokiRow} {st : PageScan} (h : st.Spec p l) (r : LokiRow) :
    (p.scanRow st r).Spec p (l ++ [r]) := by
  have hlim : p.plan.limit - p.reader.emitted ≤ (p.plan.fresh p.reader l).length ↔
      st.emitted ≥ p.userLimit := by
    rw [h.emitted, h.rows]
    simp only [plan, reader]
    omega
  have hext : p.rank (p.scanRow st r).extremeNs = p.plan.last (l ++ [r]) ∧
      (p.scanRow st r).pageCount = st.pageCount + 1 ∧ (p.scanRow st r).haveExtreme = true := by
    refine ⟨?_, ?_, ?_⟩
    · have hval : (p.scanRow st r).extremeNs = if !st.haveExtreme then r.tsNs
          else if p.backward then min st.extremeNs r.tsNs else max st.extremeNs r.tsNs := by
        simp only [scanRow, scanEntry]
        split_ifs <;> rfl
      rw [hval, h.haveExtreme]
      by_cases hnil : l = []
      · subst hnil
        rfl
      · rw [last_concat _ hnil, ← h.extreme]
        cases l with
        | nil => exact absurd rfl hnil
        | cons a l =>
          simp only [List.isEmpty_cons, Bool.not_false, Bool.not_true, Bool.false_eq_true,
            if_false, rank, plan]
          split_ifs <;> omega
    · simp only [scanRow, scanEntry]
      split_ifs <;> rfl
    · simp only [scanRow, scanEntry]
      split_ifs <;> rfl
  have hrows : (p.scanRow st r).rows = p.plan.fresh p.reader (l ++ [r]) ∧
      (p.scanRow st r).emitted = p.emitted + (p.scanRow st r).rows.length := by
    have hkey : entryKey r.tsNs r.line r.labels = r.key := rfl
    rw [fresh_concat]
    simp only [hlim, scanRow, scanEntry, hkey, h.rows]
    by_cases hfull : st.emitted ≥ p.userLimit
    · simp only [hfull, if_true, true_or]
      exact ⟨trivial, h.rows ▸ h.emitted⟩
    · by_cases hk : r.key ∈ p.boundaryKeys
      · simp only [hfull, hk, if_true, if_false, or_true]
        exact ⟨trivial, h.rows ▸ h.emitted⟩
      · simp only [hfull, hk, if_false, or_false, List.length_append, List.length_singleton]
        refine ⟨trivial, ?_⟩
        rw [h.emitted, h.rows]
        push_cast
        omega
  refine ⟨hrows.1, hrows.2, ?_, ?_, hext.1⟩
  · rw [hext.2.1, h.pageCount, List.length_append, List.length_singleton]
    push_cast
    rfl
  · rw [hext.2.2]
    simp

theorem scanPage_spec {p : StreamPager} (hp : 0 ≤ p.emitted) (hl : p.emitted ≤ p.userLimit)
    (page : List StreamChunk) : (p.scanPage page).Spec p (pageRows page) := by
  rw [scanPage_eq_foldl]
  induction pageRows page using List.reverseRecOn with
  | nil =>
    refine ⟨?_, by simp, rfl, rfl, ?_⟩
    · simp [Plan.fresh]
    · simp [Plan.last, rank]
  | append_singleton l r ih =>
    rw [List.foldl_append]
    exact scanRow_spec hp hl ih r

theorem boundaryOf_eq (page : List StreamChunk) (t : ℤ) :
    boundaryOf page t =
      (((pageRows page).filter (fun r ↦ r.tsNs = t)).map LokiRow.key).toFinset := by
  have hfold : boundaryOf page t = (pageRows page).foldl
      (fun keys r ↦ if r.tsNs = t then insert r.key keys else keys) ∅ := by
    simp only [boundaryOf, pageRows, StreamChunk.rows, List.foldl_flatMap, List.foldl_map]
    rfl
  rw [hfold]
  induction pageRows page using List.reverseRecOn with
  | nil => rfl
  | append_singleton l r ih =>
    rw [List.foldl_append, List.filter_append, List.map_append, List.toFinset_append, ih]
    ext k
    by_cases h : r.tsNs = t <;> simp [h]

end Scan

structure Valid (p : StreamPager) : Prop where
  emitted_nonneg : 0 ≤ p.emitted
  limit_pos : 1 ≤ p.userLimit
  limit_le : p.userLimit ≤ int64Max
  cap_pos : 1 ≤ p.perRequestCap
  sound : p.plan.Sound p.reader

theorem Valid.emitted_le {p : StreamPager} (h : p.Valid) : p.emitted ≤ p.userLimit := by
  have h₁ := h.sound.emitted_le
  have h₂ := h.limit_pos
  simp only [plan, reader] at h₁
  omega

theorem Valid.cap {p : StreamPager} (h : p.Valid) : 1 ≤ p.plan.cap := by
  have h₁ := h.cap_pos
  simp only [plan]
  omega

def requested (p : StreamPager) : ℤ := p.plan.want p.reader

def request (p : StreamPager) : QueryRangeRequest :=
  buildQueryRangeRequest p.logql (if p.backward then p.startNs else p.cursorNs)
    (if p.backward then p.cursorNs else p.endNs) p.requested
    (if p.backward then "backward".toList else "forward".toList)

def BelowMax (page : List StreamChunk) : Prop :=
  ∀ r ∈ pageRows page, int64Min ≤ r.tsNs ∧ r.tsNs < int64Max

instance (page : List StreamChunk) : Decidable (BelowMax page) :=
  inferInstanceAs (Decidable (∀ r ∈ pageRows page, _))

structure Continues (p p' : StreamPager) : Prop where
  logql : p'.logql = p.logql
  startNs : p'.startNs = p.startNs
  endNs : p'.endNs = p.endNs
  backward : p'.backward = p.backward
  userLimit : p'.userLimit = p.userLimit
  perRequestCap : p'.perRequestCap = p.perRequestCap

theorem Continues.refl (p : StreamPager) : p.Continues p := ⟨rfl, rfl, rfl, rfl, rfl, rfl⟩

theorem Continues.trans {p q r : StreamPager} (h : p.Continues q) (h' : q.Continues r) :
    p.Continues r :=
  ⟨h'.1.trans h.1, h'.2.trans h.2, h'.3.trans h.3, h'.4.trans h.4, h'.5.trans h.5, h'.6.trans h.6⟩

theorem Continues.plan_eq {p p' : StreamPager} (h : p.Continues p') : p'.plan = p.plan := by
  simp only [plan, rank, h.backward, h.userLimit, h.perRequestCap]

section Step

variable {p : StreamPager} {page : List StreamChunk}

theorem nextRequest_eq (hp : p.Valid) :
    p.nextRequest = some ({ p with requestedThisPage := p.requested }, p.request) := by
  have h₁ := hp.emitted_nonneg
  have h₂ := hp.emitted_le
  have h₃ := hp.limit_le
  have h₄ := hp.sound.card_le
  have h₅ := hp.cap_pos
  have hmin : int64Min ≤ 0 := by decide
  simp only [reader] at h₄
  have hrem : checked (p.userLimit - p.emitted) = some (p.userLimit - p.emitted) :=
    checked_of_inInt64 ⟨by omega, by omega⟩
  have hwant : checked (p.userLimit - p.emitted + p.boundaryKeys.card) =
      some (p.userLimit - p.emitted + p.boundaryKeys.card) :=
    checked_of_inInt64 ⟨by omega, by omega⟩
  have hreq : min (p.userLimit - p.emitted + p.boundaryKeys.card) p.perRequestCap =
      p.requested := by
    simp only [requested, Plan.want, plan, reader]
    omega
  simp only [nextRequest, hrem, hwant, hreq, Option.bind_eq_bind, Option.bind_some]
  rfl

theorem edge_eq {st : PageScan} (h : st.Spec p (pageRows page)) :
    boundaryOf page st.extremeNs =
      p.plan.edge (pageRows page) (p.plan.last (pageRows page)) := by
  rw [boundaryOf_eq, Plan.edge, ← h.extreme]
  simp only [plan, rank_inj]

theorem extreme_succ {st : PageScan} (h : st.Spec p (pageRows page)) (hpage : BelowMax page) :
    checked (st.extremeNs + 1) = some (st.extremeNs + 1) := by
  have hmin : int64Min ≤ 0 := by decide
  have hmax : 1 ≤ int64Max := by decide
  apply checked_of_inInt64
  by_cases hnil : pageRows page = []
  · have hx := h.extreme
    rw [hnil, show p.plan.last [] = p.rank 0 by simp [Plan.last, rank], rank_inj] at hx
    rw [hx]
    decide
  · obtain ⟨⟨r, hr, hlast⟩, _⟩ := Plan.last_spec (P := p.plan) hnil
    rw [← h.extreme] at hlast
    have heq : r.tsNs = st.extremeNs := rank_inj.mp hlast
    have hrange := hpage r hr
    rw [heq] at hrange
    exact ⟨by omega, by omega⟩

theorem nextCursor_eq {st : PageScan} (h : st.Spec p (pageRows page)) (hpage : BelowMax page) :
    p.nextCursor st.extremeNs =
      some (if p.backward then st.extremeNs + 1 else st.extremeNs) := by
  unfold nextCursor
  split_ifs
  · exact extreme_succ h hpage
  · rfl

theorem nextCursor_value {extremeNs cursor : ℤ} (h : p.nextCursor extremeNs = some cursor) :
    cursor = if p.backward then extremeNs + 1 else extremeNs := by
  unfold nextCursor at h
  split_ifs at h ⊢
  · exact (checked_eq_some.mp h).2.symm
  · exact (Option.some.inj h).symm

theorem progressed_iff {st : PageScan} (h : st.Spec p (pageRows page)) :
    p.progressed (if p.backward then st.extremeNs + 1 else st.extremeNs) = true ↔
      p.reader.frontier < p.plan.last (pageRows page) := by
  rw [← h.extreme]
  simp only [progressed, reader, rank]
  split_ifs
  · rw [decide_eq_true_eq]
    omega
  · exact decide_eq_true_iff

/-- Whenever a page is taken in, it is as the plan does. -/
theorem accept_eq_some (hp : p.Valid) (ho : p.done = false)
    (hreq : p.requestedThisPage = p.requested) {p' : StreamPager} {rows : List LokiRow}
    (haccept : p.accept page = some (p', rows)) :
    rows = p.plan.fresh p.reader (pageRows page) ∧ p.Continues p' ∧
      p'.reader = (p.plan.accept p.reader (pageRows page)).1 ∧ 0 ≤ p'.emitted := by
  have hst := scanPage_spec hp.emitted_nonneg hp.emitted_le page
  have hpos := hp.emitted_nonneg
  have hem := hst.emitted
  rw [hst.rows] at hem
  have hcount : (p.scanPage page).emitted.toNat =
      p.reader.emitted + (p.plan.fresh p.reader (pageRows page)).length := by
    rw [hem]
    simp only [reader]
    omega
  have hover : (p.scanPage page).pageCount < p.requestedThisPage ∨
      (p.scanPage page).emitted ≥ p.userLimit ↔
      (pageRows page).length < p.plan.want p.reader ∨
        p.plan.limit ≤ p.reader.emitted + (p.plan.fresh p.reader (pageRows page)).length := by
    rw [hst.pageCount, hem, hreq, requested]
    simp only [plan, reader]
    omega
  simp only [StreamPager.accept, hst.rows] at haccept
  simp only [Plan.accept]
  by_cases h : (p.scanPage page).pageCount < p.requestedThisPage ∨
      (p.scanPage page).emitted ≥ p.userLimit
  · rw [if_pos h] at haccept
    rw [if_pos (hover.mp h)]
    obtain ⟨hp', hrows⟩ := Prod.mk.inj (Option.some.inj haccept)
    rw [← hp', ← hrows]
    refine ⟨rfl, ⟨rfl, rfl, rfl, rfl, rfl, rfl⟩, ?_, by dsimp only; omega⟩
    rw [← hcount]
    rfl
  · rw [if_neg h] at haccept
    rw [if_neg (fun h' ↦ h (hover.mpr h'))]
    obtain ⟨cursor, hcursor, haccept⟩ := Option.map_eq_some_iff.mp haccept
    rw [nextCursor_value hcursor] at haccept
    by_cases h' : p.reader.frontier < p.plan.last (pageRows page)
    · rw [if_neg (not_not.mpr ((progressed_iff hst).mpr h'))] at haccept
      rw [if_pos h']
      obtain ⟨hp', hrows⟩ := Prod.mk.inj haccept
      rw [← hp', ← hrows]
      refine ⟨rfl, ⟨rfl, rfl, rfl, rfl, rfl, rfl⟩, ?_, by dsimp only; omega⟩
      rw [← hcount, ← edge_eq hst, ← hst.extreme]
      simp only [reader, rank, ho]
      congr 1
      split_ifs <;> omega
    · rw [if_pos (fun h ↦ h' ((progressed_iff hst).mp h))] at haccept
      rw [if_neg h']
      obtain ⟨hp', hrows⟩ := Prod.mk.inj haccept
      rw [← hp', ← hrows]
      refine ⟨rfl, ⟨rfl, rfl, rfl, rfl, rfl, rfl⟩, ?_, by dsimp only; omega⟩
      rw [← hcount]
      rfl

theorem accept_isSome (h : (p.nextCursor (p.scanPage page).extremeNs).isSome = true) :
    (p.accept page).isSome = true := by
  simp only [StreamPager.accept]
  split_ifs
  · rfl
  · rw [Option.isSome_map]
    exact h

theorem accept_refines (hp : p.Valid) (ho : p.done = false)
    (hreq : p.requestedThisPage = p.requested) (hpage : BelowMax page) :
    ∃ p', p.accept page = some (p', p.plan.fresh p.reader (pageRows page)) ∧
      p.Continues p' ∧ p'.reader = (p.plan.accept p.reader (pageRows page)).1 ∧
      0 ≤ p'.emitted := by
  have hst := scanPage_spec hp.emitted_nonneg hp.emitted_le page
  have hsome : (p.accept page).isSome = true := by
    apply accept_isSome
    rw [nextCursor_eq hst hpage]
    rfl
  obtain ⟨⟨p', rows⟩, haccept⟩ := Option.isSome_iff_exists.mp hsome
  obtain ⟨hrows, hspec⟩ := accept_eq_some hp ho hreq haccept
  rw [hrows] at haccept
  exact ⟨p', haccept, hspec⟩

theorem accept_valid (hp : p.Valid) (ho : p.done = false)
    (hreq : p.requestedThisPage = p.requested) {p' : StreamPager} {rows : List LokiRow}
    (haccept : p.accept page = some (p', rows)) : p'.Valid := by
  obtain ⟨_, hsame, hread, hpos⟩ := accept_eq_some hp ho hreq haccept
  refine ⟨hpos, ?_, ?_, ?_, ?_⟩
  · exact hsame.userLimit ▸ hp.limit_pos
  · exact hsame.userLimit ▸ hp.limit_le
  · exact hsame.perRequestCap ▸ hp.cap_pos
  · rw [hsame.plan_eq, hread]
    exact Plan.accept_sound p.plan_ranked hp.sound _

def awaiting (p : StreamPager) : StreamPager := { p with requestedThisPage := p.requested }

theorem Valid.awaiting (hp : p.Valid) : p.awaiting.Valid := ⟨hp.1, hp.2, hp.3, hp.4, hp.5⟩

/-- A turn of the fetch loop never overflows, and takes in its page as the
plan does. -/
theorem turn_refines (hp : p.Valid) (ho : p.done = false) (hpage : BelowMax page) :
    p.nextRequest = some (p.awaiting, p.request) ∧
    ∃ p', p.awaiting.accept page = some (p', p.plan.fresh p.reader (pageRows page)) ∧
      p.Continues p' ∧ p'.reader = (p.plan.accept p.reader (pageRows page)).1 ∧ p'.Valid := by
  have hq := hp.awaiting
  obtain ⟨p', hacc, hsame, hread, _⟩ := accept_refines hq ho rfl hpage
  have hsame' : p.Continues p' := ⟨hsame.1, hsame.2, hsame.3, hsame.4, hsame.5, hsame.6⟩
  exact ⟨nextRequest_eq hp, p', hacc, hsame', hread, accept_valid hq ho rfl hacc⟩

end Step

end DuckdbLoki.StreamPager
