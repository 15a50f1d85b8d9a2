import DuckdbLoki.Binding
import DuckdbLoki.Paging.Accounts

namespace DuckdbLoki

open StreamPager Paging

structure Exchange where
  call : HttpCall
  page : List StreamChunk

namespace Exchange

def rows (x : Exchange) : List LokiRow := pageRows x.page

def Answered (read : Str → Option Json) (server : ℕ → HttpCall → HttpResponse) (fnName : Str)
    (n : ℕ) (x : Exchange) : Prop :=
  responseBody fnName (server n x.call) >>= parseStreamsResponse read = .ok x.page

/-- The page keeps to the window of the call, and holds no entry twice. -/
structure Orderly (x : Exchange) : Prop where
  keys : (x.rows.map LokiRow.key).Nodup
  window : ∀ q, RangeQuery.ofRequest x.call.request = some q →
    ∀ r ∈ x.rows, q.startNs ≤ r.tsNs ∧ r.tsNs < q.endNs

/-- The page is short of what the call asked for, or holds nothing past the
nanosecond that the call resumed from. -/
def Ends (x : Exchange) : Prop :=
  ∃ q, RangeQuery.ofRequest x.call.request = some q ∧
    ((x.rows.length : ℤ) < q.limit ∨
      ∀ r ∈ x.rows, if q.backward then q.endNs ≤ r.tsNs + 1 else r.tsNs ≤ q.startNs)

end Exchange

section Step

variable {p₀ p p' : StreamPager} {endpoint : Str} {headers : List (Str × Str)}
  {page : List StreamChunk} {rows : List LokiRow}

theorem frontier_le_rank (horderly : (Exchange.mk (nextCall endpoint headers p) page).Orderly) :
    ∀ r ∈ pageRows page, p.reader.frontier ≤ p.plan.rank r := by
  intro r hr
  have hwindow := horderly.window _ (ofRequest_request p) r hr
  simp only [reader, plan, rank]
  dsimp only at hwindow
  split_ifs at hwindow ⊢ <;> omega

/-- A page that ends the scan below the limit was short or stood still. -/
theorem ends_of_done (hp : p.Valid) (ho : p.done = false)
    (haccept : p.awaiting.accept page = some (p', rows)) (hdone : p'.done = true) :
    p.plan.limit ≤ p.reader.emitted + rows.length ∨
      (Exchange.mk (nextCall endpoint headers p) page).Ends := by
  obtain ⟨_, _, hrows, hread⟩ := accept_reads hp ho haccept
  have hdone' : (p.plan.accept p.reader (pageRows page)).1.done = true := by
    rw [← hread]
    exact hdone
  cases p.plan.accept_outcome p.reader (pageRows page) with
  | finished h _ =>
    rcases h with hshort | hlimit
    · refine Or.inr ⟨_, ofRequest_request p, Or.inl ?_⟩
      exact Int.ofNat_lt.mpr hshort
    · exact Or.inl (hrows ▸ hlimit)
  | stalled _ _ hlast _ =>
    refine Or.inr ⟨_, ofRequest_request p, Or.inr ?_⟩
    intro r hr
    have hrank := (Plan.last_spec (P := p.plan) (List.ne_nil_of_mem hr)).2 r hr
    have hle := hrank.trans hlast
    simp only [reader, plan, rank] at hle
    dsimp only
    split_ifs at hle ⊢ <;> omega
  | advanced _ _ _ ht =>
    rw [ht] at hdone'
    cases hdone'

end Step

section Run

variable (read : Str → Option Json) (server : ℕ → HttpCall → HttpResponse) (fnName : Str)
  (p₀ : StreamPager)

structure Accounted (exchanges : List Exchange) (rows : List LokiRow) (s : PageSource) :
    Prop where
  valid : s.pager.Valid
  continues : p₀.Continues s.pager
  sent : exchanges.map Exchange.call = s.sent
  answered : ∀ n, ∀ x : Exchange, exchanges[n]? = some x → x.Answered read server fnName n
  accounts : p₀.plan.Accounts s.pager.reader (exchanges.map Exchange.rows) rows
  distinct : (∀ x ∈ exchanges, x.Orderly) → p₀.plan.Distinct s.pager.reader rows
  ended : s.pager.done = true →
    rows.length = p₀.plan.limit ∨ ∃ x, exchanges.getLast? = some x ∧ x.Ends

variable {read server fnName p₀} {exchanges : List Exchange} {rows batch : List LokiRow}
  {s t : PageSource} {endpoint : Str} {headers : List (Str × Str)}

theorem Accounted.start (hp : p₀.Valid) (hboundary : p₀.boundaryKeys = ∅) (hemitted : p₀.emitted = 0)
    (hdone : p₀.done = false) : Accounted read server fnName p₀ [] [] ⟨p₀, []⟩ where
  valid := hp
  continues := .refl p₀
  sent := rfl
  answered := nofun
  accounts := by
    rw [reader, hboundary, hemitted]
    exact Plan.accounts_start
  distinct := fun _ ↦ ⟨.nil, fun _ ↦ nofun⟩
  ended := by
    intro h
    rw [hdone] at h
    cases h

theorem Accounted.fetch (h : Accounted read server fnName p₀ exchanges rows s)
    (ho : s.pager.done = false)
    (hfetch : fetchPage read server fnName endpoint headers s = some (.ok (t, batch))) :
    ∃ x, Accounted read server fnName p₀ (exchanges ++ [x]) (rows ++ batch) t := by
  obtain ⟨page, p', hpage, haccept, rfl⟩ := fetchPage_ok h.valid hfetch
  obtain ⟨hvalid, hsame, hrows, hread⟩ := accept_reads h.valid ho haccept
  have hplan := h.continues.plan_eq
  let x : Exchange := ⟨nextCall endpoint headers s.pager, page⟩
  rw [hplan] at hrows hread
  have haccounts := h.accounts.accept (pageRows page)
  rw [← hread, ← hrows] at haccounts
  refine ⟨x, hvalid, h.continues.trans hsame, ?_, ?_, ?_, ?_, ?_⟩
  · rw [List.map_append, h.sent]
    rfl
  · intro n y hy
    rcases Nat.lt_or_ge n exchanges.length with hlt | hge
    · rw [List.getElem?_append_left hlt] at hy
      exact h.answered n y hy
    · rw [List.getElem?_append_right hge, List.getElem?_singleton] at hy
      split_ifs at hy with hn
      have hlen : n = s.sent.length := by
        rw [← h.sent, List.length_map]
        omega
      rw [← Option.some.inj hy, hlen]
      exact hpage
  · rw [List.map_append]
    exact haccounts
  · intro horderly
    have hnew := horderly x (List.mem_append_right _ (List.mem_singleton_self x))
    have hdistinct := h.distinct (fun y hy ↦ horderly y (List.mem_append_left _ hy))
    have hahead := frontier_le_rank hnew
    rw [hplan] at hahead
    rw [hread, hrows]
    exact hdistinct.accept p₀.plan_ranked ho hahead hnew.keys
  · intro hdone
    have hends : s.pager.plan.limit ≤ s.pager.reader.emitted + batch.length ∨ x.Ends :=
      ends_of_done h.valid ho haccept hdone
    rcases hends with hlimit | hends
    · left
      have hle := hvalid.sound.emitted_le
      rw [(h.continues.trans hsame).plan_eq, haccounts.emitted] at hle
      rw [hplan, h.accounts.emitted] at hlimit
      rw [List.length_append] at hle ⊢
      omega
    · exact Or.inr ⟨x, List.getLast?_concat, hends⟩

theorem Accounted.length_le (h : Accounted read server fnName p₀ exchanges rows s) :
    rows.length ≤ p₀.plan.limit := by
  have hle := h.valid.sound.emitted_le
  rwa [h.continues.plan_eq, h.accounts.emitted] at hle

theorem Accounted.kept (h : Accounted read server fnName p₀ exchanges rows s) :
    rows.length = p₀.plan.limit ∨
      ∀ r ∈ exchanges.flatMap Exchange.rows, r.key ∈ rows.map LokiRow.key := by
  rcases h.length_le.eq_or_lt with hlimit | hlt
  · exact Or.inl hlimit
  · exact Or.inr (h.accounts.kept hlt)

end Run

section Scan

variable {read : Str → Option Json} {server : ℕ → HttpCall → HttpResponse} {p₀ : StreamPager}
  {virtual : ℕ → Bool} {width : ℕ} {pushed : ScanBindData} {columnIds : List ℕ}
  {state : ScanGlobalState} {reader : Streaming.Reader PageSource LokiRow}
  {calls : List (Machines.Transition (Streaming.Reader PageSource LokiRow) ℕ (List (List Value)))}

/-- Every row that was taken in has been handed out or waits in the buffer. -/
theorem accounted_run
    (hstart : Accounted read server pushed.fnName p₀ [] [] ⟨state.pager, []⟩)
    (hrun : Machines.Run (scanCall read server virtual width pushed state) state.reader calls
      reader) :
    let emit := emitRow virtual pushed.labelColumns state.columnIds
    ∃ exchanges rows, Accounted read server pushed.fnName p₀ exchanges rows reader.source ∧
      Streaming.Source.handedOut calls ++ (reader.buffer.drop reader.offset).map emit =
        rows.map emit := by
  intro emit
  refine Streaming.Source.run_induction (I := fun r out ↦ ∃ exchanges rows,
    Accounted read server pushed.fnName p₀ exchanges rows r.source ∧
      out ++ (r.buffer.drop r.offset).map emit = rows.map emit) ?_ ?_ ?_ hrun
  · rintro r out x ⟨exchanges, rows, haccounted, hsplit⟩ hx
    obtain ⟨hlt, hget⟩ := List.getElem?_eq_some_iff.mp hx
    refine ⟨exchanges, rows, haccounted, ?_⟩
    rw [← hsplit, List.drop_eq_getElem_cons hlt, hget, List.map_cons, List.append_assoc]
    rfl
  · rintro r out s batch ⟨exchanges, rows, haccounted, hsplit⟩ hempty ho hfetch
    obtain ⟨x, hnext⟩ := haccounted.fetch ho hfetch
    refine ⟨_, _, hnext, ?_⟩
    rw [List.drop_eq_nil_of_le (List.getElem?_eq_none_iff.mp hempty), List.map_nil,
      List.append_nil] at hsplit
    rw [List.map_append, ← hsplit]
    rfl
  · exact ⟨[], [], hstart, rfl⟩

structure ReadsOn (p₀ : StreamPager) (n : ℕ) (s : PageSource) : Prop where
  valid : s.pager.Valid
  continues : p₀.Continues s.pager
  sent : n ≤ s.sent.length

theorem ReadsOn.fetch {n : ℕ} {s t : PageSource} {batch : List LokiRow} (h : ReadsOn p₀ n s)
    (ho : s.pager.done = false)
    (hfetch : fetchPage read server pushed.fnName state.endpoint state.headers s =
      some (.ok (t, batch))) :
    ReadsOn p₀ n t := by
  obtain ⟨page, p', _, haccept, rfl⟩ := fetchPage_ok h.valid hfetch
  obtain ⟨hvalid, hsame, _⟩ := accept_reads h.valid ho haccept
  refine ⟨hvalid, h.continues.trans hsame, h.sent.trans ?_⟩
  exact (List.sublist_append_left _ _).length_le

/-- The error of a call is that of a response to a later request. -/
theorem error_of_call {fuel : ℕ} {message : Str} (hvalid : reader.source.pager.Valid)
    (hcontinues : p₀.Continues reader.source.pager)
    (hcall : lokiScanFunction read server virtual width pushed state fuel reader =
      some (.error message)) :
    ∃ n p, reader.source.sent.length ≤ n ∧ p₀.Continues p ∧
      responseBody pushed.fnName (server n (nextCall state.endpoint state.headers p)) >>=
        parseStreamsResponse read = .error message := by
  have hnow : ReadsOn p₀ reader.source.sent.length reader.source :=
    ⟨hvalid, hcontinues, Nat.le_refl _⟩
  have houtcome := Streaming.Source.fill_outcome
    (I := fun r _ ↦ ReadsOn p₀ reader.source.sent.length r.source) (fun _ _ _ h _ _ ↦ h)
    (fun _ _ _ _ h _ ho hfetch ↦ h.fetch ho hfetch) hnow hcall
  cases houtcome with
  | failed hkept herror =>
    exact ⟨_, _, hkept.sent, hkept.continues, fetchPage_error hkept.valid herror⟩

variable {m : SecretManager} {store : List Secret} {params : ScanParams} {nowNs : ℤ}
  {db : Database} {fn text : Str} {types : List ColumnType} {names : List Str}

/-- Whatever the server answers, every entry of every page that a scan took in
is accounted for: it becomes one row, in the order of the pages, unless a row
has its key or the limit is met. The rows are handed out in that order, and all
of them once a chunk is empty, which the limit, a short page or a page that
stands still must have brought about. No response that fails goes unreported. -/
theorem bound_scan_accounts (hplan : Plans m store params nowNs db fn text pushed types names)
    (hstart : scanInitGlobal pushed columnIds = .ok state)
    (hrun : Machines.Run (scanCall read server virtual width pushed state) state.reader calls
      reader) (hwidth : 0 < width) :
    let limit := (params.limit.map Subtype.val).getD 5000
    let emit := emitRow virtual pushed.labelColumns columnIds
    let handed := Streaming.Source.handedOut calls
    ∃ (exchanges : List Exchange) (rows : List LokiRow),
      exchanges.map Exchange.call = reader.source.sent ∧
      (∀ n, ∀ x : Exchange, exchanges[n]? = some x → x.Answered read server pushed.fnName n) ∧
      rows.Sublist (exchanges.flatMap Exchange.rows) ∧
      (rows.length = limit ∨
        ∀ r ∈ exchanges.flatMap Exchange.rows, r.key ∈ rows.map LokiRow.key) ∧
      ((∀ x ∈ exchanges, x.Orderly) → (rows.map LokiRow.key).Nodup) ∧
      handed ++ (reader.buffer.drop reader.offset).map emit = rows.map emit ∧
      ((∃ x ∈ calls, x.event = []) → handed = rows.map emit ∧
        (rows.length = limit ∨ ∃ x, exchanges.getLast? = some x ∧ x.Ends)) ∧
      ∀ fuel message,
        lokiScanFunction read server virtual width pushed state fuel reader =
          some (.error message) →
        ∃ n call, reader.source.sent.length ≤ n ∧ call.endpoint = pushed.endpoint ∧
          (∃ q, RangeQuery.ofRequest call.request = some q ∧ q.query = text) ∧
          responseBody pushed.fnName (server n call) >>= parseStreamsResponse read =
            .error message := by
  intro limit emit handed
  obtain ⟨hkeeps, _⟩ := hplan.keepsParams
  unfold scanInitGlobal at hstart
  split_ifs at hstart
  obtain rfl := Except.ok.inj hstart
  let p₀ := StreamPager.new (effectiveQuery pushed) (effectiveStart pushed) (effectiveEnd pushed)
    pushed.direction pushed.limit defaultPerRequestCap
  have hp : p₀.Valid := new_valid hkeeps.limit_pos hkeeps.limit_le (by decide)
  have hlimit : ∀ n : ℕ, n = p₀.plan.limit → (n : ℤ) = limit := by
    rintro _ rfl
    have heq : (p₀.plan.limit : ℤ) = pushed.limit :=
      Int.toNat_of_nonneg (Int.le_of_lt hp.limit_pos)
    exact heq.trans hkeeps.limit
  obtain ⟨exchanges, rows, haccounted, hsplit⟩ :=
    accounted_run (.start hp rfl rfl rfl) hrun
  refine ⟨exchanges, rows, haccounted.sent, haccounted.answered, haccounted.accounts.sublist,
    haccounted.kept.imp_left (hlimit _), fun horderly ↦ (haccounted.distinct horderly).nodup,
    hsplit, ?_, ?_⟩
  · intro hends
    obtain ⟨hexhausted, hlen⟩ := Streaming.Source.run_drained hrun hwidth hends
    refine ⟨?_, (haccounted.ended hexhausted).imp_left (hlimit _)⟩
    rw [List.drop_eq_nil_of_le hlen, List.map_nil, List.append_nil] at hsplit
    exact hsplit
  · intro fuel message hcall
    obtain ⟨n, p, hle, hcontinues, herror⟩ :=
      error_of_call haccounted.valid haccounted.continues hcall
    exact ⟨n, _, hle, rfl, ⟨_, ofRequest_request p, hcontinues.logql.trans hkeeps.query⟩, herror⟩

def strayChunk : StreamChunk :=
  ⟨(sampleChunk []).labels, [⟨20, "up".toList, .empty⟩, ⟨20, "up".toList, .empty⟩]⟩

def strayRead (_ : Str) : Option Json := some (renderStreams [strayChunk])

set_option maxRecDepth 8000 in
/-- Both are handed out, and the page ends the scan because it is short. -/
theorem bound_scan_accounts_stray : ∃ state calls reader,
    scanInitGlobal sampleBind [1] = .ok state ∧
      Machines.Run (scanCall strayRead sampleServer (fun _ ↦ false) 2 sampleBind state)
        state.reader calls reader ∧
      Streaming.Source.handedOut calls = [[.varchar "up".toList], [.varchar "up".toList]] ∧
      ∃ x : Exchange, reader.source.sent = [x.call] ∧ x.Ends := by
  obtain ⟨state, hstart⟩ : ∃ state, scanInitGlobal sampleBind [1] = .ok state := ⟨_, rfl⟩
  obtain ⟨calls, reader, hexec, hout, hsent, hends⟩ : ∃ calls reader, Machines.exec (scanCall
      strayRead sampleServer (fun _ ↦ false) 2 sampleBind state) state.reader [5, 5] =
        some (calls, reader) ∧
      Streaming.Source.handedOut calls = [[.varchar "up".toList], [.varchar "up".toList]] ∧
      reader.source.sent.length = 1 ∧ ∃ x ∈ calls, x.event = [] := by
    rw [← Except.ok.inj hstart]
    exact ⟨_, _, rfl, rfl, rfl, _, List.mem_cons_of_mem _ (List.mem_singleton_self _), rfl⟩
  have hrun := Machines.exec_run hexec
  have hplan : Plans .reference [] sampleParams 10 .reference _ _ _ _ _ :=
    .lokiScan sampleBind_bound
  obtain ⟨exchanges, rows, hcalls, _, _, _, _, _, hended, _⟩ :=
    bound_scan_accounts hplan hstart hrun Nat.two_pos
  obtain ⟨hrows, hlast⟩ := hended hends
  refine ⟨state, calls, reader, hstart, hrun, hout, ?_⟩
  have htwo : rows.length = 2 := by
    rw [← List.length_map (f := emitRow _ _ _), ← hrows, hout]
    rfl
  rcases hlast with hlimit | ⟨x, hx, hxends⟩
  · rw [htwo] at hlimit
    exact absurd hlimit (by decide)
  · rw [← hcalls, List.length_map] at hsent
    obtain ⟨y, rfl⟩ := List.length_eq_one_iff.mp hsent
    obtain rfl := Option.some.inj hx
    exact ⟨_, hcalls.symm, hxends⟩

end Scan

end DuckdbLoki
