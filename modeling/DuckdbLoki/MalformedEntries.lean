import DuckdbLoki.PagerDrain
import DuckdbLoki.Paging.Skim
import DuckdbLoki.StreamsResponse
import Mathlib.Data.List.Sublists

namespace DuckdbLoki

section Response

def tuplesOf (data : Json) : List (StringMap × Json) :=
  (resultOf data).flatMap (fun elem ↦
    (valuesOf elem).map (fun tuple ↦ (stringMembers (elem.objGet "stream".toList), tuple)))

def tupleRow (x : StringMap × Json) : Option LokiRow :=
  (parseEntry x.2).map (fun e ↦ ⟨e.tsNs, e.line, x.1, e.structuredMetadata⟩)

theorem rows_parseChunk (elem : Json) :
    (parseChunk elem).rows = ((valuesOf elem).map (fun tuple ↦
      (stringMembers (elem.objGet "stream".toList), tuple))).filterMap tupleRow := by
  rw [StreamChunk.rows, parseChunk, List.map_filterMap, List.filterMap_map]
  rfl

theorem pageRows_parseChunk (data : Json) :
    pageRows ((resultOf data).map parseChunk) = (tuplesOf data).filterMap tupleRow := by
  rw [pageRows, List.flatMap_map, tuplesOf, List.filterMap_flatMap]
  apply List.flatMap_congr
  intro elem _
  exact rows_parseChunk elem

end Response

/-- An entry as the server holds it: the tuple it is sent as, and where it
belongs. The nanosecond of a tuple that can be read is the one it names. -/
structure Item where
  tsNs : ℤ
  labels : StringMap
  tuple : Json
  reads : ∀ e, parseEntry tuple = some e → e.tsNs = tsNs

namespace Item

def row (i : Item) : Option LokiRow := tupleRow (i.labels, i.tuple)

theorem row_tsNs {i : Item} {r : LokiRow} (h : i.row = some r) : r.tsNs = i.tsNs := by
  obtain ⟨e, he, hr⟩ := Option.map_eq_some_iff.mp h
  rw [← hr]
  exact i.reads e he

def inDirection (backward : Bool) (a b : Item) : Prop :=
  if backward then b.tsNs ≤ a.tsNs else a.tsNs ≤ b.tsNs

theorem inDirection_row {backward : Bool} {a b : Item} (h : inDirection backward a b)
    {x y : LokiRow} (hx : a.row = some x) (hy : b.row = some y) :
    DuckdbLoki.inDirection backward x y := by
  unfold DuckdbLoki.inDirection
  rw [row_tsNs hx, row_tsNs hy]
  exact h

end Item

structure ItemStore where
  listing : Bool → List Item
  sorted : ∀ backward, (listing backward).Pairwise (Item.inDirection backward)
  perm : (listing true).Perm (listing false)

namespace ItemStore

def entries (s : ItemStore) : Store where
  listing backward := (s.listing backward).filterMap Item.row
  sorted backward := by
    apply List.pairwise_filterMap.mpr
    apply (s.sorted backward).imp
    intro a b h x hx y hy
    exact Item.inDirection_row h hx hy
  perm := s.perm.filterMap _

def window (s : ItemStore) (backward : Bool) (startNs endNs : ℤ) : List Item :=
  (s.listing backward).filter (fun i ↦ startNs ≤ i.tsNs ∧ i.tsNs < endNs)

def select (s : ItemStore) (q : RangeQuery) : List Item :=
  (s.window q.backward q.startNs q.endNs).take q.limit.toNat

/-- A server which answers the query `logql` from the store: each response has
as many tuples as the limit allows, malformed ones counted. -/
def Serves (s : ItemStore) (read : Str → Option Json) (logql : Str)
    (server : ℕ → QueryRangeRequest → Str) : Prop :=
  ∀ n request q, RangeQuery.ofRequest request = some q → q.query = logql →
    ∃ root data, read (server n request) = some root ∧
      root.objGet "data".toList = some data ∧
      (data.objGet "resultType".toList).bind Json.getStr = some "streams".toList ∧
      (tuplesOf data).Perm ((s.select q).map (fun i ↦ (i.labels, i.tuple)))

theorem entries_window (s : ItemStore) (backward : Bool) (startNs endNs : ℤ) :
    s.entries.window backward startNs endNs =
      (s.window backward startNs endNs).filterMap Item.row := by
  rw [Store.window, entries, window, List.filter_filterMap, List.filterMap_filter]
  apply List.filterMap_congr
  intro i _
  cases h : i.row with
  | none => simp
  | some r => simp [Option.filter, Item.row_tsNs h]

theorem Serves.page {s : ItemStore} {read : Str → Option Json} {logql : Str}
    {server : ℕ → QueryRangeRequest → Str} (h : s.Serves read logql server) {n : ℕ}
    {request : QueryRangeRequest} {q : RangeQuery} (hq : RangeQuery.ofRequest request = some q)
    (hlogql : q.query = logql) :
    ∃ page, parseStreamsResponse read (server n request) = .ok page ∧
      (pageRows page).Perm ((s.select q).filterMap Item.row) := by
  obtain ⟨root, data, hread, hdata, htype, hperm⟩ := h n request q hq hlogql
  refine ⟨_, parseStreamsResponse_streams hread hdata htype, ?_⟩
  rw [pageRows_parseChunk]
  apply (hperm.filterMap _).trans
  rw [List.filterMap_map]
  exact List.Perm.refl _

end ItemStore

namespace StreamPager

open Paging

/-- The fetch loop of `LokiScanFunction` over response bodies. A body that
cannot be read ends it with the parser's message. -/
def drainBodies (read : Str → Option Json) (server : ℕ → QueryRangeRequest → Str) (n : ℕ) :
    ℕ → StreamPager → Option (Except Str (StreamPager × List Turn))
  | fuel, p =>
    if p.done then some (.ok (p, []))
    else match fuel with
      | 0 => none
      | fuel + 1 => do
        let (p₁, request) ← p.nextRequest
        match parseStreamsResponse read (server n request) with
        | .error message => some (.error message)
        | .ok page => do
          let (p₂, rows) ← p₁.accept page
          let rest ← drainBodies read server (n + 1) fuel p₂
          some (rest.map (fun x ↦ (x.1, ⟨p, request, page, rows, p₂⟩ :: x.2)))

def pagesOf (read : Str → Option Json) (server : ℕ → QueryRangeRequest → Str) (n : ℕ)
    (request : QueryRangeRequest) : List StreamChunk :=
  (parseStreamsResponse read (server n request)).toOption.getD []

section Loop

variable {read : Str → Option Json} {server : ℕ → QueryRangeRequest → Str} {p q : StreamPager}

theorem parse_pagesOf {n : ℕ} {request : QueryRangeRequest}
    (h : ∃ page, parseStreamsResponse read (server n request) = .ok page) :
    parseStreamsResponse read (server n request) = .ok (pagesOf read server n request) := by
  obtain ⟨page, hpage⟩ := h
  rw [pagesOf, hpage]
  rfl

/-- Where every body can be read, the loop is the one over the pages. -/
theorem drainBodies_eq {fuel n : ℕ} {turns : List Turn}
    (hdrain : drain (pagesOf read server) n fuel p = some (q, turns))
    (hok : ∀ t ∈ turns, ∀ m,
      ∃ page, parseStreamsResponse read (server m t.request) = .ok page) :
    drainBodies read server n fuel p = some (.ok (q, turns)) := by
  induction fuel generalizing p n turns with
  | zero =>
    unfold drain at hdrain
    unfold drainBodies
    split_ifs at hdrain ⊢ with hd
    rw [Option.some.inj hdrain]
  | succ fuel ih =>
    unfold drain at hdrain
    unfold drainBodies
    split_ifs at hdrain ⊢ with hd
    · rw [Option.some.inj hdrain]
    · obtain ⟨⟨p₁, request⟩, hnext, hdrain⟩ := Option.bind_eq_some_iff.mp hdrain
      obtain ⟨⟨p₂, rows⟩, hacc, hdrain⟩ := Option.bind_eq_some_iff.mp hdrain
      obtain ⟨⟨q', rest⟩, hrest, hdrain⟩ := Option.bind_eq_some_iff.mp hdrain
      obtain ⟨hq, hturns⟩ := Prod.mk.inj (Option.some.inj hdrain)
      rw [hq] at hrest
      rw [← hturns] at hok ⊢
      obtain ⟨hfirst, hok⟩ := List.forall_mem_cons.mp hok
      have ih := ih hrest hok
      have hpage := parse_pagesOf (hfirst n)
      dsimp only at hacc hpage
      simp only [hnext, hpage, hacc, ih, Option.bind_eq_bind, Option.bind_some, Except.map]

end Loop

def rest (s : ItemStore) (p : StreamPager) : List Item :=
  s.window p.backward (if p.backward then p.startNs else p.cursorNs)
    (if p.backward then p.cursorNs else p.endNs)

/-- The next response holds no malformed tuple, or leaves out no well-formed
entry that was not returned before. -/
def Lossless (s : ItemStore) (p : StreamPager) : Prop :=
  (∀ i ∈ (rest s p).take p.requested.toNat, i.row ≠ none) ∨
    ∀ i ∈ (rest s p).drop p.requested.toNat, ∀ r, i.row = some r → r.key ∈ p.boundaryKeys

instance (s : ItemStore) (p : StreamPager) : Decidable (Lossless s p) :=
  inferInstanceAs (Decidable ((∀ i ∈ (rest s p).take p.requested.toNat, i.row ≠ none) ∨
    ∀ i ∈ (rest s p).drop p.requested.toNat, ∀ r ∈ i.row, r.key ∈ p.boundaryKeys))

section Scan

variable {s : ItemStore} {read : Str → Option Json} {server : ℕ → QueryRangeRequest → Str}
variable {p q : StreamPager}

theorem length_filterMap_lt {α β : Type} {f : α → Option β} {l : List α} :
    (l.filterMap f).length < l.length ↔ ∃ a ∈ l, f a = none := by
  rw [← not_iff_not, not_lt, (List.length_filterMap_le f l).ge_iff_eq,
    List.filterMap_length_eq_length]
  simp [Option.isSome_iff_ne_none]

theorem Chain.mem_before {turns : List Turn} (h : Chain p turns q) :
    ∀ t ∈ turns, p.Continues t.before ∧ p.reader.frontier ≤ t.before.reader.frontier ∧
      t.request = t.before.request := by
  intro t ht
  obtain ⟨earlier, later, hsplit⟩ := List.append_of_mem ht
  rw [hsplit] at h
  obtain ⟨r, h₁, h₂⟩ := h.append
  cases h₂ with
  | cons ho hb hacc hsame hread h₂ => exact ⟨h₁.continues, h₁.frontier_le, rfl⟩

theorem ahead_eq (hp : p.Fresh) (hc : p.Continues q)
    (hf : p.reader.frontier ≤ q.reader.frontier) :
    p.plan.ahead (target s.entries p) q.reader = (rest s q).filterMap Item.row := by
  rw [Plan.ahead, ← window_request hp hc hf, s.entries_window]
  rfl

theorem requested_toNat (hc : p.Continues q) : q.requested.toNat = p.plan.want q.reader := by
  rw [requested, hc.plan_eq, Int.toNat_natCast]

theorem page_request (hs : s.Serves read p.logql server) (hc : p.Continues q) (n : ℕ) :
    ∃ page, parseStreamsResponse read (server n q.request) = .ok page ∧
      (pageRows page).Perm (((rest s q).take q.requested.toNat).filterMap Item.row) :=
  hs.page (ofRequest_request q) hc.logql

theorem pageRows_pagesOf (hs : s.Serves read p.logql server) (hc : p.Continues q) (n : ℕ) :
    (pageRows (pagesOf read server n q.request)).Perm
      (((rest s q).take q.requested.toNat).filterMap Item.row) := by
  obtain ⟨page, hpage, hperm⟩ := page_request hs hc n
  rw [pagesOf, hpage]
  exact hperm

theorem skims_request (hp : p.Fresh) (hs : s.Serves read p.logql server) (hc : p.Continues q)
    (hf : p.reader.frontier ≤ q.reader.frontier) (n : ℕ) :
    p.plan.Skims (target s.entries p) q.reader
      (pageRows (pagesOf read server n q.request)) := by
  have hperm := pageRows_pagesOf hs hc n
  have hlen := hperm.length_eq
  constructor
  · rw [hlen]
    apply (List.length_filterMap_le _ _).trans
    exact (List.length_take_le _ _).trans_eq (requested_toNat hc)
  · rw [ahead_eq hp hc hf, hlen]
    have hprefix := (List.take_prefix q.requested.toNat (rest s q)).filterMap Item.row
    rw [← List.prefix_iff_eq_take.mp hprefix]
    exact hperm

theorem drop_ahead (hp : p.Fresh) (hc : p.Continues q)
    (hf : p.reader.frontier ≤ q.reader.frontier) (n : ℕ) :
    (p.plan.ahead (target s.entries p) q.reader).drop
        (((rest s q).take n).filterMap Item.row).length =
      ((rest s q).drop n).filterMap Item.row := by
  have hsplit : (rest s q).filterMap Item.row =
      ((rest s q).take n).filterMap Item.row ++ ((rest s q).drop n).filterMap Item.row := by
    rw [← List.filterMap_append, List.take_append_drop]
  rw [ahead_eq hp hc hf, hsplit]
  exact List.drop_left

theorem not_lossless : ¬ Lossless s q ↔
    (∃ i ∈ (rest s q).take q.requested.toNat, i.row = none) ∧
      ∃ r ∈ ((rest s q).drop q.requested.toNat).filterMap Item.row, r.key ∉ q.boundaryKeys := by
  simp only [Lossless, not_or, not_forall, not_not, exists_prop, List.mem_filterMap]
  apply and_congr_right
  intro _
  constructor
  · intro h
    obtain ⟨i, hi, r, hr, hkey⟩ := h
    exact ⟨r, ⟨i, hi, hr⟩, hkey⟩
  · intro h
    obtain ⟨r, ⟨i, hi, hr⟩, hkey⟩ := h
    exact ⟨i, hi, r, hr, hkey⟩

theorem loses_request (hp : p.Fresh) (hs : s.Serves read p.logql server) (hc : p.Continues q)
    (hf : p.reader.frontier ≤ q.reader.frontier) (n : ℕ) :
    p.plan.Loses (target s.entries p) q.reader (pageRows (pagesOf read server n q.request)) ↔
      ¬ Lossless s q := by
  rw [Plan.Loses, (pageRows_pagesOf hs hc n).length_eq, drop_ahead hp hc hf, not_lossless,
    ← requested_toNat hc]
  apply and_congr_left
  intro hlost
  obtain ⟨r, hr, _⟩ := hlost
  obtain ⟨i, hi, _⟩ := List.mem_filterMap.mp hr
  have hpos := List.length_pos_of_mem hi
  rw [List.length_drop] at hpos
  have hfull : ((rest s q).take q.requested.toNat).length = q.requested.toNat :=
    List.length_take_of_le (by omega)
  rw [← length_filterMap_lt, hfull]

theorem Chain.skims {turns : List Turn} {p₀ : StreamPager} (hp : p₀.Fresh)
    (hs : s.Serves read p₀.logql server) (h : Chain p turns q) (hc : p₀.Continues p)
    (hf : p₀.reader.frontier ≤ p.reader.frontier)
    (hpages : ∀ t ∈ turns, ∃ m, t.page = pagesOf read server m t.request) :
    p₀.plan.SkimRuns (target s.entries p₀) p.reader
      (turns.map (fun t ↦ (t.before.reader, pageRows t.page, t.rows))) q.reader := by
  induction h with
  | nil p => exact .nil _
  | @cons p p' q page turns ho hb hacc hsame hread h ih =>
    obtain ⟨m, hm⟩ := hpages _ List.mem_cons_self
    dsimp only at hm
    have hf' : p₀.reader.frontier ≤ p'.reader.frontier :=
      hf.trans (Chain.frontier_le (.cons ho hb hacc hsame hread (.nil p')))
    have ih := ih (hc.trans hsame) hf' (fun t ht ↦ hpages t (List.mem_cons_of_mem _ ht))
    have hskim := skims_request hp hs hc hf m
    rw [hread, hc.plan_eq] at ih
    rw [← hm] at hskim
    rw [List.map_cons, hc.plan_eq]
    exact .cons ho hskim ih

theorem belowMax_pagesOf (hp : p.Fresh) (hs : s.Serves read p.logql server)
    (hc : p.Continues q) (hf : p.reader.frontier ≤ q.reader.frontier) (n : ℕ) :
    BelowMax (pagesOf read server n q.request) := by
  intro r hr
  have hskim := skims_request hp hs hc hf n
  have hmem := List.mem_of_mem_take (hskim.perm.mem_iff.mp hr)
  obtain ⟨_, h₁, h₂⟩ := Store.mem_window.mp (List.mem_filter.mp hmem).1
  exact ⟨hp.start_in.1.trans h₁, h₂.trans_le hp.end_in.2⟩

theorem drainBodies_skims (hp : p.Fresh) (hs : s.Serves read p.logql server) :
    ∃ q turns, drainBodies read server 0 p.userLimit.toNat p = some (.ok (q, turns)) ∧
      q.done = true ∧ Chain p turns q ∧
      p.plan.SkimRuns (target s.entries p) p.reader
        (turns.map (fun t ↦ (t.before.reader, pageRows t.page, t.rows))) q.reader ∧
      ∀ t ∈ turns, p.plan.Loses (target s.entries p) t.before.reader (pageRows t.page) ↔
        ¬ Lossless s t.before := by
  obtain ⟨q, turns, hdrain, hq, hchain, hpages⟩ := drain_chain p.userLimit.toNat hp.valid
    (fun n turns q h ↦ belowMax_pagesOf hp hs h.continues h.frontier_le n)
    (fun _ ↦ by have := hp.emitted; omega) 0
  refine ⟨q, turns, drainBodies_eq hdrain ?_, hq, hchain,
    hchain.skims hp hs (.refl p) le_rfl hpages, ?_⟩
  · intro t ht m
    obtain ⟨hc, _, hreq⟩ := hchain.mem_before t ht
    obtain ⟨page, hpage, _⟩ := page_request hs hc m
    rw [hreq]
    exact ⟨page, hpage⟩
  · intro t ht
    obtain ⟨hc, hf, hreq⟩ := hchain.mem_before t ht
    obtain ⟨m, hm⟩ := hpages t ht
    rw [hm, hreq]
    exact loses_request hp hs hc hf m

theorem drainBodies_perm_iff (hp : p.Fresh) (hs : s.Serves read p.logql server)
    (hkeys : ((s.entries.listing true).map LokiRow.key).Nodup)
    (hcrowd : ∀ t, s.entries.countAt t < p.perRequestCap) :
    ∃ q turns, drainBodies read server 0 p.userLimit.toNat p = some (.ok (q, turns)) ∧
      q.done = true ∧
      ((drainedRows turns).Perm ((target s.entries p).take
        (min p.userLimit.toNat (target s.entries p).length)) ↔
          ∀ t ∈ turns, Lossless s t.before) := by
  obtain ⟨q, turns, hdrain, hq, hchain, hskims, hloses⟩ := drainBodies_skims hp hs
  have hL := target_sorted s.entries p
  have hnodup : ((target s.entries p).map p.plan.key).Nodup :=
    Store.keys_window_nodup hkeys _ _ _
  have hst := hp.standing (s := s.entries)
  have hcount : ∀ r, p.plan.count (target s.entries p) r < p.plan.cap := by
    intro r
    have h₁ := s.entries.count_window_le p.backward p.startNs p.endNs (p.rank r)
    have h₂ := hcrowd (p.rank r)
    rw [count_target]
    simp only [plan, target]
    omega
  have hem := hp.emitted_eq hchain
  have hzero : p.reader.emitted = 0 := by simp only [reader, hp.emitted, Int.toNat_zero]
  have hperm := hskims.emissions_perm hL p.plan_ranked hp.valid.cap hnodup hst
  have hiff := hskims.complete_iff hL p.plan_ranked hp.valid.cap hnodup hcount hst hp.ongoing hq
  have htrace : (turns.map (fun t ↦ (t.before.reader, pageRows t.page, t.rows))).map Prod.snd =
      trace turns := List.map_map
  rw [htrace, emissions_trace, hem, hzero, List.drop_zero, Nat.sub_zero] at hperm
  rw [hem, List.forall_mem_map] at hiff
  refine ⟨q, turns, hdrain, hq, ?_⟩
  have hlossless : (drainedRows turns).length = min p.userLimit.toNat (target s.entries p).length ↔
      ∀ t ∈ turns, Lossless s t.before := by
    apply hiff.trans
    apply forall₂_congr
    intro t ht
    rw [hloses t ht, not_not]
  rw [← hlossless]
  constructor
  · intro h
    rw [h.length_eq, List.length_take]
    omega
  · intro h
    rw [h] at hperm
    exact hperm

end Scan

/-- A scan over bodies with malformed tuples always ends without an error; it
returns what it should exactly when every request on the way is lossless. -/
theorem drainBodies_complete_iff (s : ItemStore) (read : Str → Option Json)
    (server : ℕ → QueryRangeRequest → Str) (logql : Str) (hs : s.Serves read logql server)
    (startNs endNs : ℤ) (hstart : InInt64 startNs) (hend : InInt64 endNs) (direction : Str)
    (userLimit cap : ℤ) (hpos : 1 ≤ userLimit) (hmax : userLimit ≤ int64Max)
    (hkeys : ((s.entries.listing true).map LokiRow.key).Nodup)
    (hcrowd : ∀ t, s.entries.countAt t < cap) :
    let window := s.entries.window (direction != "forward".toList) startNs endNs
    ∃ q turns, drainBodies read server 0 userLimit.toNat
        (new logql startNs endNs direction userLimit cap) = some (.ok (q, turns)) ∧
      q.done = true ∧
      ((drainedRows turns).Perm (window.take (min userLimit.toNat window.length)) ↔
        ∀ t ∈ turns, Lossless s t.before) := by
  have hcap : 1 ≤ cap := by
    have := hcrowd 0
    omega
  exact drainBodies_perm_iff (p := new logql startNs endNs direction userLimit cap)
    (new_fresh hstart hend hpos hmax hcap) hs hkeys hcrowd

section Samples

def webStream : Json := stringObject [("app".toList, "web".toList)]

def sampleText : Fin 3 → String × String
  | 0 => ("10", "a")
  | 1 => ("20", "b")
  | 2 => ("x", "c")

def sampleTuple (i : Fin 3) : Json :=
  .array [.string (sampleText i).1.toList, .string (sampleText i).2.toList]

def sampleItem (i : Fin 3) : Item where
  tsNs := 10 * (i + 1)
  labels := stringMembers (some webStream)
  tuple := sampleTuple i
  reads := by
    have h : ∀ i, ∀ e ∈ parseEntry (sampleTuple i), e.tsNs = 10 * (i + 1) := by decide
    exact h i

def sampleOrder (backward : Bool) : List (Fin 3) := if backward then [2, 1, 0] else [0, 1, 2]

def sampleStore : ItemStore where
  listing backward := (sampleOrder backward).map sampleItem
  sorted backward := by
    rw [List.pairwise_map]
    have h : (sampleOrder backward).Pairwise
        (fun i j ↦ if backward then j ≤ i else i ≤ j) := by cases backward <;> decide
    apply h.imp
    intro i j hij
    unfold Item.inDirection
    cases backward <;> simp only [sampleItem] <;> simp at hij ⊢ <;> omega
  perm := by
    apply List.Perm.map
    decide

def sampleDocument (l : List (Fin 3)) : Str :=
  "\x7b\"status\":\"success\",\"data\":\x7b\"resultType\":\"streams\",\"result\":[".toList ++
    [','].intercalate (l.map (fun i ↦
      "\x7b\"stream\":\x7b\"app\":\"web\"\x7d,\"values\":[[\"".toList ++ (sampleText i).1.toList ++
        "\",\"".toList ++ (sampleText i).2.toList ++ "\"]]\x7d".toList)) ++ "]\x7d\x7d".toList

def sampleData (l : List (Fin 3)) : Json :=
  .object [("resultType".toList, .string "streams".toList),
    ("result".toList, .array (l.map (fun i ↦
      .object [("stream".toList, webStream), ("values".toList, .array [sampleTuple i])])))]

def sampleDocuments : List (List (Fin 3)) :=
  (sampleOrder true).sublists ++ (sampleOrder false).sublists

def sampleRoot (l : List (Fin 3)) : Json :=
  .object [("status".toList, .string "success".toList), ("data".toList, sampleData l)]

def sampleRead (body : Str) : Option Json :=
  (sampleDocuments.find? (fun l ↦ sampleDocument l = body)).map sampleRoot

def sampleSelect (q : RangeQuery) : List (Fin 3) :=
  ((sampleOrder q.backward).filter (fun i ↦
    q.startNs ≤ (sampleItem i).tsNs ∧ (sampleItem i).tsNs < q.endNs)).take q.limit.toNat

def sampleServer (_ : ℕ) (request : QueryRangeRequest) : Str :=
  match RangeQuery.ofRequest request with
  | none => []
  | some q => sampleDocument (sampleSelect q)

theorem tuplesOf_sampleData (l : List (Fin 3)) :
    tuplesOf (sampleData l) = l.map (fun i ↦ ((sampleItem i).labels, (sampleItem i).tuple)) := by
  have hresult : resultOf (sampleData l) = l.map (fun i ↦
      .object [("stream".toList, webStream), ("values".toList, .array [sampleTuple i])]) := rfl
  rw [tuplesOf, hresult, List.flatMap_map, List.map_eq_flatMap]
  rfl

theorem sampleRead_document : ∀ l ∈ sampleDocuments,
    sampleDocuments.find? (fun l' ↦ sampleDocument l' = sampleDocument l) = some l := by
  decide +kernel

theorem sampleSelect_mem (q : RangeQuery) : sampleSelect q ∈ sampleDocuments := by
  have hsub : (sampleSelect q).Sublist (sampleOrder q.backward) :=
    (List.take_sublist _ _).trans List.filter_sublist
  apply List.mem_append.mpr
  cases hb : q.backward with
  | true => exact Or.inl (List.mem_sublists.mpr (hb ▸ hsub))
  | false => exact Or.inr (List.mem_sublists.mpr (hb ▸ hsub))

theorem sampleStore_select (q : RangeQuery) :
    sampleStore.select q = (sampleSelect q).map sampleItem := by
  rw [ItemStore.select, ItemStore.window, sampleStore, List.filter_map, sampleSelect,
    List.map_take]
  rfl

theorem sampleStore_serves : sampleStore.Serves sampleRead appQuery sampleServer := by
  intro n request q hq _
  refine ⟨sampleRoot (sampleSelect q), sampleData (sampleSelect q), ?_, rfl, ?_, ?_⟩
  · rw [sampleServer, hq, sampleRead]
    dsimp only
    rw [sampleRead_document _ (sampleSelect_mem q)]
    rfl
  · exact congrArg some (show cString "streams".toList = "streams".toList by decide)
  · rw [tuplesOf_sampleData, sampleStore_select, List.map_map]
    exact List.Perm.refl _

theorem sampleStore_keys : ((sampleStore.entries.listing true).map LokiRow.key).Nodup := by
  decide +kernel

theorem sampleStore_countAt (t : ℤ) : (sampleStore.entries.countAt t : ℤ) < 2 := by
  apply Store.countAt_lt_of_rows
  · decide
  · decide +kernel

/-- The malformed tuple is in the second page, which is the last. -/
theorem drainBodies_sample :
    ∃ q turns, drainBodies sampleRead sampleServer 0 9
        (new appQuery 0 40 "forward".toList 9 2) = some (.ok (q, turns)) ∧
      q.done = true ∧ turns.length = 2 ∧
      (drainedRows turns).Perm (sampleStore.entries.window false 0 40) := by
  have hforward : ("forward".toList != "forward".toList) = false := by decide
  have hlen : (sampleStore.entries.window false 0 40).length = 2 := by decide +kernel
  obtain ⟨q, turns, hdrain, hq, hiff⟩ := drainBodies_complete_iff sampleStore sampleRead
    sampleServer appQuery sampleStore_serves 0 40 (by decide) (by decide) "forward".toList 9 2
    (by decide) (by decide) sampleStore_keys sampleStore_countAt
  have hrun : ((drainBodies sampleRead sampleServer 0 9
      (new appQuery 0 40 "forward".toList 9 2)).bind Except.toOption).all
        (fun x ↦ x.2.length = 2 ∧ ∀ t ∈ x.2, Lossless sampleStore t.before) = true := by
    decide +kernel
  rw [show ((9 : ℤ).toNat) = 9 from rfl] at hdrain
  rw [hdrain] at hrun
  obtain ⟨hturns, hlossless⟩ := of_decide_eq_true hrun
  have hperm := hiff.mpr hlossless
  rw [hforward, hlen] at hperm
  exact ⟨q, turns, hdrain, hq, hturns, hperm.trans (.of_eq (List.take_of_length_le hlen.le))⟩

/-- A first page of two tuples, one of them malformed, ends the scan. -/
theorem drainBodies_sample_short :
    sampleStore.Serves sampleRead appQuery sampleServer ∧
      ((sampleStore.entries.listing true).map LokiRow.key).Nodup ∧
      (∀ t, (sampleStore.entries.countAt t : ℤ) < 2) ∧
      ∃ q turns, drainBodies sampleRead sampleServer 0 9
          (new appQuery 0 40 "backward".toList 9 2) = some (.ok (q, turns)) ∧
        q.done = true ∧ (drainedRows turns).length = 1 ∧
        (sampleStore.entries.window true 0 40).length = 2 := by
  refine ⟨sampleStore_serves, sampleStore_keys, sampleStore_countAt, ?_⟩
  have hrun : ((drainBodies sampleRead sampleServer 0 9
      (new appQuery 0 40 "backward".toList 9 2)).bind Except.toOption).map
        (fun x ↦ (x.1.done, (drainedRows x.2).length)) = some (true, 1) := by decide +kernel
  obtain ⟨⟨q, turns⟩, hdrain, hx⟩ := Option.map_eq_some_iff.mp hrun
  obtain ⟨result, hresult, hok⟩ := Option.bind_eq_some_iff.mp hdrain
  obtain ⟨hq, hrows⟩ := Prod.mk.inj hx
  refine ⟨q, turns, ?_, hq, hrows, by decide +kernel⟩
  cases result with
  | error message => cases hok
  | ok x => rw [hresult, Option.some.inj hok]

end Samples

end StreamPager

end DuckdbLoki
