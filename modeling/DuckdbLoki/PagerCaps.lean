import DuckdbLoki.Paging.Caps
import DuckdbLoki.PagerDrain
import Mathlib.Data.List.MinMax

namespace DuckdbLoki

open Paging StreamPager

namespace Store

def busiest (s : Store) : ℕ :=
  ((s.listing true).map (fun r ↦ s.countAt r.tsNs)).foldr max 0

theorem countAt_le_busiest (s : Store) (t : ℤ) : s.countAt t ≤ s.busiest := by
  by_cases ht : ∃ r ∈ s.listing true, r.tsNs = t
  · obtain ⟨r, hr, rfl⟩ := ht
    exact List.le_max_of_le' 0 (List.mem_map_of_mem hr) le_rfl
  · have hnone : (s.listing true).filter (fun r ↦ r.tsNs = t) = [] :=
      List.filter_eq_nil_iff.mpr (fun r hr ht' ↦ ht ⟨r, hr, of_decide_eq_true ht'⟩)
    rw [countAt, hnone]
    exact Nat.zero_le _

theorem busiest_lt {s : Store} {c : ℤ} (hc : 0 < c) (h : ∀ t, s.countAt t < c) :
    s.busiest < c := by
  have hlist : ∀ l : List LokiRow,
      (((l.map (fun r ↦ s.countAt r.tsNs)).foldr max 0 : ℕ) : ℤ) < c := by
    intro l
    induction l with
    | nil => simpa using hc
    | cons r l ih =>
      have := h r.tsNs
      simp only [List.map_cons, List.foldr_cons]
      omega
  exact hlist _

end Store

def repeatsAt (rows : List LokiRow) (t : ℤ) : ℕ :=
  (rows.filter (fun r ↦ r.tsNs = t)).length -
    ((rows.filter (fun r ↦ r.tsNs = t)).map LokiRow.key).toFinset.card

/-- No page of more than `m` entries ends between two entries with one key, and
the limit leaves room for the repeated keys at the end of the shortest one. -/
structure CutSafe (backward : Bool) (rows : List LokiRow) (m : ℕ) (userLimit : ℤ) : Prop where
  cut : ∀ n, m < n → ∀ a ∈ rows.take n, ∀ b ∈ rows.drop n, a.key ≠ b.key
  room : ∀ h : m + 1 < rows.length,
    min ((rows.filter (fun r ↦ inDirection backward r rows[m])).length + 1) rows.length +
      repeatsAt rows rows[m].tsNs ≤ userLimit

theorem cutSafe_iff {p : StreamPager} (hpos : 1 ≤ p.userLimit) {rows : List LokiRow} {m : ℕ} :
    CutSafe p.backward rows m p.userLimit ↔ p.plan.Settled rows m := by
  have hroom : ∀ h : m + 1 < rows.length,
      ((min ((rows.filter (fun r ↦ inDirection p.backward r rows[m])).length + 1) rows.length +
        repeatsAt rows rows[m].tsNs : ℕ) : ℤ) ≤ p.userLimit ↔
      min (p.plan.upto rows (p.plan.rank rows[m]) + 1) rows.length +
        p.plan.repeats rows (p.plan.rank rows[m]) ≤ p.plan.limit := by
    intro h
    have hupto : p.plan.upto rows (p.plan.rank rows[m]) =
        (rows.filter (fun r ↦ inDirection p.backward r rows[m])).length := by
      simp only [Plan.upto, inDirection_iff]
    have hrep : p.plan.repeats rows (p.plan.rank rows[m]) = repeatsAt rows rows[m].tsNs := by
      have hrank : ∀ r, p.plan.rank r = p.plan.rank rows[m] ↔ r.tsNs = rows[m].tsNs := fun r ↦
        rank_inj
      simp only [Plan.repeats, Plan.count, Plan.edge, repeatsAt, hrank]
      rfl
    rw [hupto, hrep]
    simp only [plan]
    omega
  constructor
  · rintro ⟨h₁, h₂⟩
    exact ⟨h₁, fun h ↦ (hroom h).mp (by rw [Int.natCast_add]; exact h₂ h)⟩
  · rintro ⟨h₁, h₂⟩
    exact ⟨h₁, fun h ↦ by rw [← Int.natCast_add]; exact (hroom h).mpr (h₂ h)⟩

namespace StreamPager

section Scan

variable {s : Store} {server : ℕ → QueryRangeRequest → List StreamChunk} {p q : StreamPager}

theorem count_le_busiest (r : ℤ) : p.plan.count (target s p) r ≤ s.busiest := by
  rw [count_target]
  exact (s.count_window_le _ _ _ _).trans (s.countAt_le_busiest _)

theorem drain_settled (hp : p.Fresh) (hs : s.Serves p.logql server) {m : ℕ}
    (hset : p.plan.Settled (target s p) m) (hm : ∀ r, p.plan.count (target s p) r ≤ m)
    (hcap : m < p.perRequestCap) (hfit : (target s p).length ≤ p.userLimit) :
    ∃ q turns, drain server 0 p.userLimit.toNat p = some (q, turns) ∧
      (drainedRows turns).Perm (target s p) := by
  obtain ⟨q, turns, hdrain, hq, hchain, hreads⟩ := drain_reads hp hs
  have hL := target_sorted s p
  have hst := hp.standing (s := s)
  have hlim : (target s p).length ≤ p.plan.limit := by
    simp only [plan]
    omega
  have hcap' : m < p.plan.cap := by
    simp only [plan]
    omega
  have hzero : p.reader.emitted = 0 := by simp only [reader, hp.emitted, Int.toNat_zero]
  have hall : ∀ tr t, p.plan.Reads (target s p) (fun _ ↦ True) p.reader tr t → t.done = true →
      t.emitted = (target s p).length := fun tr t h hd ↦
    hset.complete hm hcap' hL p.plan_ranked hlim hst hp.ongoing hzero hp.boundary h hd
  have hgood := (hst.complete_iff hL p.plan_ranked hp.valid.cap hp.ongoing hlim).mp hall
  have hsep := hreads.of_reached (fun tr u h hu ↦ (hgood tr u h hu).1)
  have hperm := hsep.emissions_perm hL p.plan_ranked hp.valid.cap (fun _ hu ↦ hu) hst
  rw [emissions_trace, hall _ _ hreads hq, hzero, List.drop_zero, Nat.sub_zero,
    List.take_length] at hperm
  exact ⟨q, turns, hdrain, hperm⟩

end Scan

section Caps

variable {s : Store} {logql : Str} {startNs endNs : ℤ} (hstart : InInt64 startNs)
  (hend : InInt64 endNs) {direction : Str} {userLimit : ℤ} (hpos : 1 ≤ userLimit)
  (hmax : userLimit ≤ int64Max)
  (hfit : (s.window (direction != "forward".toList) startNs endNs).length ≤ userLimit)

include hstart hend hpos hmax hfit

theorem drain_new_perm {m : ℕ} (hset : (new logql startNs endNs direction userLimit 1).plan.Settled
      (s.window (direction != "forward".toList) startNs endNs) m) (hm : s.busiest ≤ m) {cap : ℤ}
    (hcap : m < cap) {server : ℕ → QueryRangeRequest → List StreamChunk}
    (hs : s.Serves logql server) :
    ∃ q turns, drain server 0 userLimit.toNat
      (new logql startNs endNs direction userLimit cap) = some (q, turns) ∧
      (drainedRows turns).Perm (s.window (direction != "forward".toList) startNs endNs) :=
  drain_settled (new_fresh hstart hend hpos hmax (by omega)) hs ⟨hset.cut, hset.room⟩
    (fun r ↦ (count_le_busiest r).trans hm) hcap hfit

/-- If every page size above the busiest nanosecond returns the whole window,
no page cuts it. -/
theorem settled_of_drain_perm (hall : ∀ cap : ℤ, s.busiest < cap → cap ≤ int64Max →
      ∃ q turns, drain s.respond 0 userLimit.toNat
        (new logql startNs endNs direction userLimit cap) = some (q, turns) ∧
        (drainedRows turns).Perm (s.window (direction != "forward".toList) startNs endNs)) :
    (new logql startNs endNs direction userLimit 1).plan.Settled
      (s.window (direction != "forward".toList) startNs endNs) s.busiest := by
  have hfresh : ∀ cap, 1 ≤ cap → (new logql startNs endNs direction userLimit cap).Fresh :=
    fun cap hcap ↦ new_fresh hstart hend hpos hmax hcap
  have hL := target_sorted s (new logql startNs endNs direction userLimit 1)
  have hrank := (new logql startNs endNs direction userLimit 1).plan_ranked
  have hmin : ∀ e ∈ s.window (direction != "forward".toList) startNs endNs,
      (new logql startNs endNs direction userLimit 1).reader.frontier ≤
        (new logql startNs endNs direction userLimit 1).plan.rank e :=
    (hfresh 1 le_rfl).frontier_le_rank
  have hlim : (s.window (direction != "forward".toList) startNs endNs).length ≤
      userLimit.toNat := by omega
  refine (Plan.complete_caps_iff hL hrank count_le_busiest hlim
    (by simp only [plan, new]; omega) hmin).mp ?_
  intro c hc hle tr t hreads hd
  have hle' : (c : ℤ) ≤ userLimit := by
    simp only [plan, new] at hle
    omega
  obtain ⟨q, turns, hdrain, hperm⟩ := hall c (by omega) (by omega)
  obtain ⟨q', turns', hdrain', hq', hchain, hreads'⟩ :=
    drain_reads (hfresh c (by omega)) (s.respond_serves logql)
  rw [show drain s.respond 0 userLimit.toNat _ = _ from hdrain'] at hdrain
  obtain ⟨rfl, rfl⟩ := Prod.mk.inj (Option.some.inj hdrain)
  have hfinal : t = q'.reader := hreads.final_eq hreads' hd hq'
  rw [hfinal, (hfresh c (by omega)).emitted_eq hchain]
  exact hperm.length_eq

end Caps

/-- Scans with any two page sizes above the busiest nanosecond return the same
rows exactly when no page cuts the window between two entries with one key. -/
theorem drains_agree_iff (s : Store) (logql : Str) (startNs endNs : ℤ)
    (hstart : InInt64 startNs) (hend : InInt64 endNs) (direction : Str) (userLimit : ℤ)
    (hpos : 1 ≤ userLimit) (hmax : userLimit ≤ int64Max)
    (hfit : (s.window (direction != "forward".toList) startNs endNs).length ≤ userLimit) :
    (∀ (cap₁ cap₂ : ℤ) server₁ server₂, (∀ t, s.countAt t < cap₁) → (∀ t, s.countAt t < cap₂) →
        cap₁ ≤ int64Max → cap₂ ≤ int64Max → s.Serves logql server₁ → s.Serves logql server₂ →
        ∃ q₁ turns₁ q₂ turns₂,
          drain server₁ 0 userLimit.toNat (new logql startNs endNs direction userLimit cap₁) =
            some (q₁, turns₁) ∧
          drain server₂ 0 userLimit.toNat (new logql startNs endNs direction userLimit cap₂) =
            some (q₂, turns₂) ∧
          (drainedRows turns₁).Perm (drainedRows turns₂)) ↔
      CutSafe (direction != "forward".toList)
        (s.window (direction != "forward".toList) startNs endNs) s.busiest userLimit := by
  have hsafe : CutSafe (direction != "forward".toList)
      (s.window (direction != "forward".toList) startNs endNs) s.busiest userLimit ↔
        (new logql startNs endNs direction userLimit 1).plan.Settled
          (s.window (direction != "forward".toList) startNs endNs) s.busiest :=
    cutSafe_iff (p := new logql startNs endNs direction userLimit 1) hpos
  rw [hsafe]
  constructor
  · intro hall
    by_cases hbusy : int64Max ≤ s.busiest
    · exact Plan.Settled.of_length_le (by omega)
    have hfits : ∀ cap : ℤ, s.busiest < cap → ∀ u, s.countAt u < cap := fun cap hcap u ↦ by
      have := s.countAt_le_busiest u
      omega
    -- the largest page reads the window at once
    obtain ⟨q₂, turns₂, hd₂, hp₂⟩ := drain_new_perm hstart hend hpos hmax hfit
      (Plan.Settled.of_length_le (m := int64Max.toNat - 1) (by omega)) (by omega)
      (show _ < int64Max by decide) (s.respond_serves logql)
    refine settled_of_drain_perm hstart hend hpos hmax hfit fun cap hcap hle ↦ ?_
    obtain ⟨q₁, turns₁, x₂, y₂, hd₁, hd₂', hagree⟩ := hall cap int64Max s.respond s.respond
      (hfits cap hcap) (hfits _ (by omega)) hle le_rfl (s.respond_serves logql)
      (s.respond_serves logql)
    rw [hd₂] at hd₂'
    obtain ⟨rfl, rfl⟩ := Prod.mk.inj (Option.some.inj hd₂')
    exact ⟨q₁, turns₁, hd₁, hagree.trans hp₂⟩
  · intro hset cap₁ cap₂ server₁ server₂ h₁ h₂ _ _ hs₁ hs₂
    have hpos₁ : 0 < cap₁ := by
      have := h₁ 0
      omega
    have hpos₂ : 0 < cap₂ := by
      have := h₂ 0
      omega
    obtain ⟨q₁, turns₁, hd₁, hp₁⟩ := drain_new_perm hstart hend hpos hmax hfit hset le_rfl
      (Store.busiest_lt hpos₁ h₁) hs₁
    obtain ⟨q₂, turns₂, hd₂, hp₂⟩ := drain_new_perm hstart hend hpos hmax hfit hset le_rfl
      (Store.busiest_lt hpos₂ h₂) hs₂
    exact ⟨q₁, turns₁, q₂, turns₂, hd₁, hd₂, hp₁.trans hp₂.symm⟩

/-- Two entries differ in their metadata alone, and no page of three ends
between them. -/
def pairs : Store := .ofList [appRow 30 "a", appRow 20 "b",
  { appRow 20 "b" with structuredMetadata := ⟨[("id".toList, "7".toList)], by decide⟩ },
  appRow 10 "c", appRow 5 "d"]

theorem pairs_cutSafe :
    CutSafe ("backward".toList != "forward".toList)
      (pairs.window ("backward".toList != "forward".toList) 0 40) pairs.busiest 9 := by
  have hbusy : pairs.busiest = 2 := by decide
  have hbackward : ("backward".toList != "forward".toList) = true := by decide
  rw [hbusy, hbackward]
  constructor
  · intro n hn
    have hlen : (pairs.window true 0 40).length = 5 := by decide
    obtain rfl | rfl | hlast : n = 3 ∨ n = 4 ∨ 5 ≤ n := by omega
    · decide
    · decide
    · intro a _ b hb
      rw [List.drop_of_length_le (hlen.trans_le hlast)] at hb
      exact absurd hb List.not_mem_nil
  · decide

theorem drains_agree_pairs :
    ∃ q₁ turns₁ q₂ turns₂,
      drain pairs.respond 0 9 (new appQuery 0 40 "backward".toList 9 3) = some (q₁, turns₁) ∧
      drain pairs.respond 0 9 (new appQuery 0 40 "backward".toList 9 5) = some (q₂, turns₂) ∧
      (drainedRows turns₁).Perm (drainedRows turns₂) :=
  (drains_agree_iff pairs appQuery 0 40 (by decide) (by decide) "backward".toList 9 (by decide)
    (by decide) (by decide)).mpr pairs_cutSafe 3 5 pairs.respond pairs.respond
    (Store.countAt_lt_of_rows (by decide) (by decide))
    (Store.countAt_lt_of_rows (by decide) (by decide)) (by decide) (by decide)
    (pairs.respond_serves _) (pairs.respond_serves _)

def twins : Store := .ofList [appRow 30 "a", appRow 20 "b", appRow 10 "c",
  { appRow 10 "c" with structuredMetadata := ⟨[("id".toList, "7".toList)], by decide⟩ }]

theorem drains_differ_twins :
    (∀ t, (twins.countAt t : ℤ) < 3) ∧ twins.Serves appQuery twins.respond ∧
    ∃ q₁ turns₁ q₂ turns₂,
      drain twins.respond 0 9 (new appQuery 0 40 "backward".toList 9 3) =
        some (q₁, turns₁) ∧
      drain twins.respond 0 9 (new appQuery 0 40 "backward".toList 9 5) =
        some (q₂, turns₂) ∧
      ¬ (drainedRows turns₁).Perm (drainedRows turns₂) := by
  have hrun : ∀ cap n, (drain twins.respond 0 9
      (new appQuery 0 40 "backward".toList 9 cap)).map
        (fun x ↦ (drainedRows x.2).length) = some n → ∃ q turns, drain twins.respond 0 9
          (new appQuery 0 40 "backward".toList 9 cap) = some (q, turns) ∧
        (drainedRows turns).length = n := by
    intro cap n h
    obtain ⟨⟨q, turns⟩, hdrain, hlen⟩ := Option.map_eq_some_iff.mp h
    exact ⟨q, turns, hdrain, hlen⟩
  obtain ⟨q₁, turns₁, hd₁, h₁⟩ := hrun 3 3 (by decide +kernel)
  obtain ⟨q₂, turns₂, hd₂, h₂⟩ := hrun 5 4 (by decide +kernel)
  refine ⟨Store.countAt_lt_of_rows (by decide) (by decide), twins.respond_serves _,
    q₁, turns₁, q₂, turns₂, hd₁, hd₂, fun h ↦ ?_⟩
  have := h.length_eq
  omega

end StreamPager

end DuckdbLoki
