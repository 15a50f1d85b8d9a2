import DuckdbLoki.Paging.Complete
import DuckdbLoki.PagerSafety
import DuckdbLoki.Store

namespace DuckdbLoki.StreamPager

open Paging

theorem inDirection_iff {p : StreamPager} {a b : LokiRow} :
    inDirection p.backward a b ↔ p.plan.rank a ≤ p.plan.rank b := by
  simp only [inDirection, plan, rank]
  split_ifs
  · exact Int.neg_le_neg_iff.symm
  · exact Iff.rfl

structure Fresh (p : StreamPager) : Prop where
  valid : p.Valid
  start_in : InInt64 p.startNs
  end_in : InInt64 p.endNs
  cursor : p.cursorNs = if p.backward then p.endNs else p.startNs
  emitted : p.emitted = 0
  boundary : p.boundaryKeys = ∅
  ongoing : p.done = false

section Scan

variable {s : Store} {server : ℕ → QueryRangeRequest → List StreamChunk} {p q : StreamPager}

def target (s : Store) (p : StreamPager) : List LokiRow :=
  s.window p.backward p.startNs p.endNs

theorem target_sorted (s : Store) (p : StreamPager) :
    (target s p).Pairwise (fun a b ↦ p.plan.rank a ≤ p.plan.rank b) :=
  (s.window_sorted _ _ _).imp inDirection_iff.mp

theorem Fresh.frontier_le_rank (hp : p.Fresh) :
    ∀ e ∈ target s p, p.reader.frontier ≤ p.plan.rank e := by
  intro e he
  obtain ⟨_, h₁, h₂⟩ := Store.mem_window.mp he
  simp only [reader, plan, rank, hp.cursor]
  split_ifs <;> omega

theorem Fresh.standing (hp : p.Fresh) : p.plan.Standing (target s p) p.reader := by
  have hreader : p.reader = ⟨p.reader.frontier, ∅, 0, false⟩ := by
    simp only [reader, hp.emitted, hp.boundary, hp.ongoing]
    rfl
  have hlim : 1 ≤ p.plan.limit := by
    have h := hp.valid.limit_pos
    simp only [plan]
    omega
  rw [hreader]
  exact Plan.standing_start hlim hp.frontier_le_rank

theorem Fresh.emitted_eq (hp : p.Fresh) {turns : List Turn} (h : Chain p turns q) :
    q.reader.emitted = (drainedRows turns).length := by
  have h := h.runs.emitted
  rw [emissions_trace] at h
  simpa only [reader, hp.emitted, Int.toNat_zero, Nat.zero_add] using h

theorem window_request (hp : p.Fresh) (hc : p.Continues q)
    (hf : p.reader.frontier ≤ q.reader.frontier) :
    s.window q.backward (if q.backward then q.startNs else q.cursorNs)
      (if q.backward then q.cursorNs else q.endNs) =
      (target s p).filter (fun e ↦ q.reader.frontier ≤ p.plan.rank e) := by
  simp only [target, Store.window, List.filter_filter, hc.backward, hc.startNs, hc.endNs]
  apply List.filter_congr
  intro r _
  rw [← Bool.decide_and, decide_eq_decide]
  simp only [reader, hc.backward, hp.cursor] at hf
  simp only [reader, plan, rank, hc.backward]
  split_ifs at hf ⊢ <;> omega

theorem select_request (hp : p.Fresh) (hc : p.Continues q)
    (hf : p.reader.frontier ≤ q.reader.frontier) :
    s.select ⟨q.logql, if q.backward then q.startNs else q.cursorNs,
      if q.backward then q.cursorNs else q.endNs, q.requested, q.backward⟩ =
      p.plan.answer (target s p) q.reader := by
  rw [Store.select, window_request hp hc hf, Plan.answer, requested, hc.plan_eq]
  rfl

theorem Chain.frontier_le {turns : List Turn} (h : Chain p turns q) :
    p.reader.frontier ≤ q.reader.frontier := h.runs.frontier_le

theorem serves_request (hp : p.Fresh) (hs : s.Serves p.logql server) (hc : p.Continues q)
    (hf : p.reader.frontier ≤ q.reader.frontier) (n : ℕ) :
    p.plan.Serves (target s p) q.reader (pageRows (server n q.request)) := by
  rw [Plan.Serves, ← select_request hp hc hf]
  exact hs n q.request _ (ofRequest_request q) hc.logql

theorem belowMax_request (hp : p.Fresh) (hs : s.Serves p.logql server) (hc : p.Continues q)
    (hf : p.reader.frontier ≤ q.reader.frontier) (n : ℕ) :
    BelowMax (server n q.request) := by
  intro r hr
  have hmem := ((serves_request hp hs hc hf n).mem_iff.mp hr)
  obtain ⟨_, h₁, h₂⟩ := Store.mem_window.mp (List.mem_filter.mp (List.mem_of_mem_take hmem)).1
  exact ⟨hp.start_in.1.trans h₁, h₂.trans_le hp.end_in.2⟩

theorem Chain.reads {turns : List Turn} {p₀ : StreamPager} (hp : p₀.Fresh)
    (hs : s.Serves p₀.logql server) (h : Chain p turns q) (hc : p₀.Continues p)
    (hf : p₀.reader.frontier ≤ p.reader.frontier)
    (hpages : ∀ t ∈ turns, ∃ m, t.page = server m t.request) :
    p₀.plan.Reads (target s p₀) (fun _ ↦ True) p.reader (trace turns) q.reader := by
  induction h with
  | nil p => exact .nil _
  | @cons p p' q page turns ho hb hacc hsame hread h ih =>
    obtain ⟨m, hm⟩ := hpages _ List.mem_cons_self
    dsimp only at hm
    have hf' : p₀.reader.frontier ≤ p'.reader.frontier :=
      hf.trans (Chain.frontier_le (.cons ho hb hacc hsame hread (.nil p')))
    have ih := ih (hc.trans hsame) hf' (fun t ht ↦ hpages t (List.mem_cons_of_mem _ ht))
    rw [hread, hc.plan_eq] at ih
    have hserve := serves_request hp hs hc hf m
    rw [← hm] at hserve
    simpa only [trace, List.map_cons, hc.plan_eq] using Plan.Reads.cons ho trivial hserve ih

theorem drain_reads (hp : p.Fresh) (hs : s.Serves p.logql server) :
    ∃ q turns, drain server 0 p.userLimit.toNat p = some (q, turns) ∧ q.done = true ∧
      Chain p turns q ∧
      p.plan.Reads (target s p) (fun _ ↦ True) p.reader (trace turns) q.reader := by
  obtain ⟨q, turns, hdrain, hq, hchain, hpages⟩ := drain_chain p.userLimit.toNat hp.valid
    (fun n turns q h ↦ belowMax_request hp hs h.continues h.frontier_le n)
    (fun _ ↦ by have := hp.emitted; omega) 0
  exact ⟨q, turns, hdrain, hq, hchain, hchain.reads hp hs (.refl p) le_rfl hpages⟩

/-- A finished scan of a store with distinct keys: it has returned the first
entries of its window, page after page, until they ran out, the limit was met
or a crowded nanosecond stopped it. -/
theorem drain_distinct (hp : p.Fresh) (hs : s.Serves p.logql server)
    (hkeys : ((s.listing true).map LokiRow.key).Nodup) :
    ∃ q turns, drain server 0 p.userLimit.toNat p = some (q, turns) ∧ q.done = true ∧
      (drainedRows turns).Perm ((target s p).take (drainedRows turns).length) ∧
      (turns.map Turn.rows).Pairwise
        (fun x y ↦ ∀ a ∈ x, ∀ b ∈ y, inDirection p.backward a b) ∧
      ((drainedRows turns).length = min p.userLimit.toNat (target s p).length ∨
        p.perRequestCap.toNat ≤ p.plan.count (target s p) q.reader.frontier ∧
        (target s p).take (drainedRows turns).length =
          (target s p).filter (fun e ↦ p.plan.rank e < q.reader.frontier) ++
            ((target s p).filter (fun e ↦ p.plan.rank e = q.reader.frontier)).take
              p.perRequestCap.toNat) := by
  obtain ⟨q, turns, hdrain, hq, hchain, hreads⟩ := drain_reads hp hs
  have hL := target_sorted s p
  have hnodup : ((target s p).map p.plan.key).Nodup := Store.keys_window_nodup hkeys _ _ _
  have hst := hp.standing (s := s)
  have hcap := hp.valid.cap
  have hsep := hreads.separated hnodup hL p.plan_ranked hcap hst
  have hem := hp.emitted_eq hchain
  have hzero : p.reader.emitted = 0 := by simp only [reader, hp.emitted, Int.toNat_zero]
  refine ⟨q, turns, hdrain, hq, ?_, ?_, ?_⟩
  · have h := hsep.emissions_perm hL p.plan_ranked hcap (fun _ hu ↦ hu) hst
    rwa [emissions_trace, hem, hzero, List.drop_zero, Nat.sub_zero] at h
  · have h := hsep.ordered hL p.plan_ranked hcap (fun _ hu ↦ hu) hst
    simp only [trace, List.map_map, Function.comp_def] at h
    exact h.imp (fun hxy a ha b hb ↦ inDirection_iff.mpr (hxy a ha b hb))
  · rw [← hem]
    rcases hsep.ended hL p.plan_ranked hcap (fun _ hu ↦ hu) hst hp.ongoing hq with
      h | ⟨u, _, hat, hstuck⟩
    · exact Or.inl h
    · exact Or.inr ⟨(hstuck.cap_le hnodup hL hat).1, hstuck.take_eq hnodup hL hat⟩

def ahead (backward : Bool) (t u : ℤ) : Bool := if backward then t < u else u < t

theorem rank_eq_iff {r : LokiRow} {f : ℤ} : p.plan.rank r = f ↔ r.tsNs = p.rank f := by
  simp only [plan, rank]
  split_ifs <;> omega

theorem rank_lt_iff {r : LokiRow} {f : ℤ} :
    p.plan.rank r < f ↔ ahead p.backward (p.rank f) r.tsNs = true := by
  simp only [plan, rank, ahead]
  split_ifs
  · rw [decide_eq_true_eq]
    omega
  · exact decide_eq_true_iff.symm

theorem count_target (f : ℤ) : p.plan.count (target s p) f =
    ((target s p).filter (fun r ↦ r.tsNs = p.rank f)).length := by
  simp only [Plan.count, rank_eq_iff]

end Scan

theorem new_fresh {logql : Str} {startNs endNs : ℤ} {direction : Str} {userLimit cap : ℤ}
    (hstart : InInt64 startNs) (hend : InInt64 endNs) (hpos : 1 ≤ userLimit)
    (hmax : userLimit ≤ int64Max) (hcap : 1 ≤ cap) :
    (new logql startNs endNs direction userLimit cap).Fresh :=
  ⟨new_valid hpos hmax hcap, hstart, hend, rfl, rfl, rfl, rfl⟩

/-- A scan returns the first entries of its window exactly once, as many as
the limit allows, and keeps to their order from page to page. -/
theorem drain_complete (s : Store) (server : ℕ → QueryRangeRequest → List StreamChunk)
    (logql : Str) (hs : s.Serves logql server) (startNs endNs : ℤ) (hstart : InInt64 startNs)
    (hend : InInt64 endNs) (direction : Str) (userLimit cap : ℤ) (hpos : 1 ≤ userLimit)
    (hmax : userLimit ≤ int64Max) (hkeys : ((s.listing true).map LokiRow.key).Nodup)
    (hcrowd : ∀ t, s.countAt t < cap) :
    let backward := direction != "forward".toList
    let window := s.window backward startNs endNs
    ∃ q turns, drain server 0 userLimit.toNat
        (new logql startNs endNs direction userLimit cap) = some (q, turns) ∧
      q.done = true ∧
      (drainedRows turns).Perm (window.take (min userLimit.toNat window.length)) ∧
      (drainedRows turns).Nodup ∧
      (turns.map Turn.rows).Pairwise
        (fun earlier later ↦ ∀ a ∈ earlier, ∀ b ∈ later, inDirection backward a b) := by
  have hcap : 1 ≤ cap := by
    have := hcrowd 0
    omega
  obtain ⟨q, turns, hdrain, hq, hperm, hord, hend⟩ :=
    drain_distinct (p := new logql startNs endNs direction userLimit cap)
      (new_fresh hstart hend hpos hmax hcap) hs hkeys
  refine ⟨q, turns, hdrain, hq, ?_, ?_, hord⟩
  · rcases hend with h | ⟨h, _⟩
    · rw [h] at hperm
      exact hperm
    · rw [count_target] at h
      have h₁ : cap.toNat ≤ _ := h.trans (s.count_window_le _ _ _ _)
      have h₂ := hcrowd ((new logql startNs endNs direction userLimit cap).rank q.reader.frontier)
      omega
  · refine hperm.nodup_iff.mpr ?_
    have hwin := Store.keys_window_nodup hkeys (direction != "forward".toList) startNs endNs
    exact (List.Nodup.of_map _ hwin).sublist (List.take_sublist _ _)

def appRow (t : ℤ) (line : String) : LokiRow :=
  ⟨t, line.toList, ⟨[("app".toList, "web".toList)], by decide⟩, .empty⟩

def burst : Store :=
  .ofList [appRow 20 "a", appRow 20 "b", appRow 20 "c", appRow 10 "d"]

theorem drain_complete_burst :
    ∃ q turns, drain burst.respond 0 9
        (new appQuery 0 30 "backward".toList 9 4) = some (q, turns) ∧
      q.done = true ∧ (drainedRows turns).Perm ((burst.window true 0 30).take 4) := by
  obtain ⟨q, turns, hdrain, hq, hperm, _⟩ := drain_complete burst burst.respond
    appQuery (burst.respond_serves _) 0 30 (by decide) (by decide)
    "backward".toList 9 4 (by decide) (by decide) (by decide)
    (Store.countAt_lt_of_rows (by decide) (by decide))
  exact ⟨q, turns, hdrain, hq, hperm⟩

theorem drain_burst_short :
    burst.Serves appQuery burst.respond ∧
    ∃ q turns, drain burst.respond 0 9
        (new appQuery 0 30 "backward".toList 9 2) = some (q, turns) ∧
      q.done = true ∧ (drainedRows turns).length < 9 ∧
      appRow 10 "d" ∈ burst.window true 0 30 ∧ appRow 10 "d" ∉ drainedRows turns := by
  have hrun : (drain burst.respond 0 9
      (new appQuery 0 30 "backward".toList 9 2)).map
        (fun x ↦ (x.1.done, drainedRows x.2)) =
      some (true, [appRow 20 "a", appRow 20 "b"]) := by decide +kernel
  obtain ⟨⟨q, turns⟩, hdrain, hx⟩ := Option.map_eq_some_iff.mp hrun
  obtain ⟨hq, hrows⟩ := Prod.mk.inj hx
  refine ⟨burst.respond_serves _, q, turns, hdrain, hq, ?_, by decide, ?_⟩
  · rw [show drainedRows turns = _ from hrows]
    decide
  · rw [show drainedRows turns = _ from hrows]
    decide

/-- A scan that ends below its limit has returned its whole window, unless a
nanosecond with at least a page of entries stopped it: then it has returned all
ahead of that nanosecond and one page of it. -/
theorem drain_below_limit (s : Store) (server : ℕ → QueryRangeRequest → List StreamChunk)
    (logql : Str) (hs : s.Serves logql server) (startNs endNs : ℤ) (hstart : InInt64 startNs)
    (hend : InInt64 endNs) (direction : Str) (userLimit cap : ℤ) (hpos : 1 ≤ userLimit)
    (hmax : userLimit ≤ int64Max) (hcap : 1 ≤ cap)
    (hkeys : ((s.listing true).map LokiRow.key).Nodup) :
    let backward := direction != "forward".toList
    let window := s.window backward startNs endNs
    ∃ q turns, drain server 0 userLimit.toNat
        (new logql startNs endNs direction userLimit cap) = some (q, turns) ∧
      q.done = true ∧
      ((drainedRows turns).length < userLimit →
        (drainedRows turns).Perm window ∨
        ∃ t, cap ≤ (window.filter (fun r ↦ r.tsNs = t)).length ∧
          (drainedRows turns).Perm (window.filter (fun r ↦ ahead backward t r.tsNs) ++
            (window.filter (fun r ↦ r.tsNs = t)).take cap.toNat)) := by
  have hp : (new logql startNs endNs direction userLimit cap).Fresh :=
    new_fresh hstart hend hpos hmax hcap
  obtain ⟨q, turns, hdrain, hq, hperm, _, hended⟩ := drain_distinct hp hs hkeys
  refine ⟨q, turns, hdrain, hq, fun hlt ↦ ?_⟩
  rcases hended with h | ⟨hcount, htake⟩
  · left
    simp only [new] at h
    rw [h, List.take_of_length_le (by simp only [target, new] at h ⊢; omega)] at hperm
    exact hperm
  · right
    simp only [rank_lt_iff, rank_eq_iff, Bool.decide_eq_true] at htake
    rw [count_target] at hcount
    refine ⟨(new logql startNs endNs direction userLimit cap).rank q.reader.frontier, ?_, ?_⟩
    · exact (Int.self_le_toNat cap).trans (Int.ofNat_le.mpr hcount)
    · rw [htake] at hperm
      exact hperm

theorem drain_below_limit_burst :
    ∃ q turns, drain burst.respond 0 9
        (new appQuery 0 30 "backward".toList 9 2) = some (q, turns) ∧
      ((drainedRows turns).length < 9 →
        (drainedRows turns).Perm (burst.window true 0 30) ∨
        ∃ t, 2 ≤ ((burst.window true 0 30).filter (fun r ↦ r.tsNs = t)).length ∧
          (drainedRows turns).Perm
            ((burst.window true 0 30).filter (fun r ↦ ahead true t r.tsNs) ++
              ((burst.window true 0 30).filter (fun r ↦ r.tsNs = t)).take 2)) := by
  obtain ⟨q, turns, hdrain, _, hshort⟩ := drain_below_limit burst burst.respond
    appQuery (burst.respond_serves _) 0 30 (by decide) (by decide)
    "backward".toList 9 2 (by decide) (by decide) (by decide) (by decide)
  refine ⟨q, turns, hdrain, fun hlt ↦ ?_⟩
  rcases hshort (by omega) with h | ⟨t, hcount, hperm⟩
  · exact Or.inl h
  · exact Or.inr ⟨t, Int.ofNat_le.mp hcount, hperm⟩

end DuckdbLoki.StreamPager
