import DuckdbLoki.Pager
import Mathlib.Data.List.Sort

namespace DuckdbLoki

def inDirection (backward : Bool) (a b : LokiRow) : Prop :=
  if backward then b.tsNs ≤ a.tsNs else a.tsNs ≤ b.tsNs

instance (backward : Bool) : DecidableRel (inDirection backward) := fun a b ↦ by
  unfold inDirection
  infer_instance

instance (backward : Bool) : IsTrans LokiRow (inDirection backward) where
  trans a b c h h' := by
    unfold inDirection at *
    split_ifs at * <;> omega

instance (backward : Bool) : Std.Total (inDirection backward) where
  total a b := by
    unfold inDirection
    split_ifs <;> omega

/-- The entries a query selects in a static Loki, in the order each direction
lists them. Entries of one nanosecond stand in any fixed order. -/
structure Store where
  listing : Bool → List LokiRow
  sorted : ∀ backward, (listing backward).Pairwise (inDirection backward)
  perm : (listing true).Perm (listing false)

namespace Store

def ofList (rows : List LokiRow) : Store where
  listing backward := rows.insertionSort (inDirection backward)
  sorted _ := List.pairwise_insertionSort _ rows
  perm := (List.perm_insertionSort _ rows).trans (List.perm_insertionSort _ rows).symm

def window (s : Store) (backward : Bool) (startNs endNs : ℤ) : List LokiRow :=
  (s.listing backward).filter (fun r ↦ startNs ≤ r.tsNs ∧ r.tsNs < endNs)

def select (s : Store) (q : RangeQuery) : List LokiRow :=
  (s.window q.backward q.startNs q.endNs).take q.limit.toNat

/-- A server which answers the query `logql` from the store, its entries
grouped into chunks of any shape and order. -/
def Serves (s : Store) (logql : Str) (server : ℕ → QueryRangeRequest → List StreamChunk) : Prop :=
  ∀ n request q, RangeQuery.ofRequest request = some q → q.query = logql →
    (pageRows (server n request)).Perm (s.select q)

def countAt (s : Store) (t : ℤ) : ℕ := ((s.listing true).filter (fun r ↦ r.tsNs = t)).length

def respond (s : Store) (_ : ℕ) (request : QueryRangeRequest) : List StreamChunk :=
  match RangeQuery.ofRequest request with
  | none => []
  | some q => (s.select q).map (fun r ↦ ⟨r.labels, [⟨r.tsNs, r.line, r.structuredMetadata⟩]⟩)

theorem pageRows_singletons (rows : List LokiRow) :
    pageRows (rows.map (fun r ↦ ⟨r.labels, [⟨r.tsNs, r.line, r.structuredMetadata⟩]⟩)) = rows := by
  simp [pageRows, StreamChunk.rows, List.flatMap_map, List.flatMap_singleton']

theorem respond_serves (s : Store) (logql : Str) : s.Serves logql s.respond := by
  intro n request q hq _
  rw [respond, hq, pageRows_singletons]

theorem window_sorted (s : Store) (backward : Bool) (startNs endNs : ℤ) :
    (s.window backward startNs endNs).Pairwise (inDirection backward) :=
  (s.sorted backward).filter _

theorem mem_window {s : Store} {backward : Bool} {startNs endNs : ℤ} {r : LokiRow} :
    r ∈ s.window backward startNs endNs ↔
      r ∈ s.listing backward ∧ startNs ≤ r.tsNs ∧ r.tsNs < endNs := by
  simp [window]

theorem listing_perm (s : Store) (b b' : Bool) : (s.listing b).Perm (s.listing b') := by
  cases b <;> cases b'
  · exact .refl _
  · exact s.perm.symm
  · exact s.perm
  · exact .refl _

theorem keys_window_nodup {s : Store} (h : ((s.listing true).map LokiRow.key).Nodup)
    (backward : Bool) (startNs endNs : ℤ) :
    ((s.window backward startNs endNs).map LokiRow.key).Nodup :=
  (((s.listing_perm true backward).map _).nodup_iff.mp h).sublist
    (List.filter_sublist.map _)

theorem count_window_le (s : Store) (backward : Bool) (startNs endNs t : ℤ) :
    ((s.window backward startNs endNs).filter (fun r ↦ r.tsNs = t)).length ≤ s.countAt t := by
  rw [countAt, ((s.listing_perm true backward).filter _).length_eq]
  exact (List.filter_sublist.filter _).length_le

theorem countAt_lt_of_rows {s : Store} {n : ℤ} (hn : 0 < n)
    (h : ∀ r ∈ s.listing true, s.countAt r.tsNs < n) (t : ℤ) : s.countAt t < n := by
  by_cases ht : ∃ r ∈ s.listing true, r.tsNs = t
  · obtain ⟨r, hr, rfl⟩ := ht
    exact h r hr
  · have hnone : (s.listing true).filter (fun r ↦ r.tsNs = t) = [] :=
      List.filter_eq_nil_iff.mpr (fun r hr ht' ↦ ht ⟨r, hr, of_decide_eq_true ht'⟩)
    rw [countAt, hnone]
    exact hn

end Store

end DuckdbLoki
