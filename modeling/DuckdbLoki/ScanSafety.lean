import DuckdbLoki.PagerSafety
import DuckdbLoki.ScanFunction

namespace DuckdbLoki

open StreamPager Paging

section Turn

def StreamPager.Past (backward : Bool) (p q : StreamPager) : Prop :=
  if backward then q.cursorNs < p.cursorNs else p.cursorNs < q.cursorNs

theorem StreamPager.Past.trans {backward : Bool} {p q r : StreamPager} (h : Past backward p q)
    (h' : Past backward q r) : Past backward p r := by
  unfold Past at *
  split_ifs at * <;> omega

theorem accept_reads {p p' : StreamPager} {page : List StreamChunk} {rows : List LokiRow}
    (hp : p.Valid) (ho : p.done = false) (haccept : p.awaiting.accept page = some (p', rows)) :
    p'.Valid ∧ p.Continues p' ∧ rows = p.plan.fresh p.reader (pageRows page) ∧
      p'.reader = (p.plan.accept p.reader (pageRows page)).1 := by
  obtain ⟨hrows, hsame, hread, _⟩ := accept_eq_some hp.awaiting ho rfl haccept
  exact ⟨accept_valid hp.awaiting ho rfl haccept,
    ⟨hsame.1, hsame.2, hsame.3, hsame.4, hsame.5, hsame.6⟩, hrows, hread⟩

/-- Whatever page is taken in, it is counted, and the scan ends with it or has
moved on. -/
theorem accept_counts {p p' : StreamPager} {page : List StreamChunk} {rows : List LokiRow}
    (hp : p.Valid) (ho : p.done = false) (haccept : p.awaiting.accept page = some (p', rows)) :
    p'.Valid ∧ p.Continues p' ∧ p'.emitted = p.emitted + rows.length ∧
      (p'.done = false → rows ≠ [] ∧ Past p.backward p p') := by
  obtain ⟨hvalid, hsame, hrows, hread⟩ := accept_reads hp ho haccept
  have hemitted := p.plan.accept_emitted p.reader (pageRows page)
  rw [← hread, ← hrows] at hemitted
  refine ⟨hvalid, hsame, ?_, ?_⟩
  · have hpos := hp.emitted_nonneg
    have hpos' := hvalid.emitted_nonneg
    simp only [reader] at hemitted
    omega
  · intro hopen
    have hprogress := Plan.accept_progress hp.sound ho hp.cap (pageRows page)
      (by rw [← hread]; exact hopen)
    rw [← hread, ← hrows] at hprogress
    refine ⟨hprogress.2, ?_⟩
    exact cursor_moves hsame.backward hprogress.1

end Turn

section Requests

def StreamPager.Within (p₀ p : StreamPager) : Prop :=
  p₀.cursorNs = p.cursorNs ∨ Past p₀.backward p₀ p

theorem StreamPager.Within.past {p₀ p q : StreamPager} (h : Within p₀ p)
    (hpast : Past p₀.backward p q) : Past p₀.backward p₀ q := by
  rcases h with heq | h
  · unfold Past at *
    rw [heq]
    exact hpast
  · exact h.trans hpast

structure Asked (p₀ : StreamPager) (before : List StreamPager) : Prop where
  requested : ∀ p ∈ before, p.Valid ∧ p₀.Continues p ∧ p.done = false
  window : ∀ p ∈ before, Within p₀ p
  apart : before.Pairwise (Past p₀.backward)
  limit : before.length ≤ p₀.userLimit

variable (p₀ : StreamPager) (call : StreamPager → HttpCall)

structure Paged (before : List StreamPager) (s : PageSource) : Prop where
  valid : s.pager.Valid
  continues : p₀.Continues s.pager
  sent : s.sent = before.map call
  asked : Asked p₀ before
  reached : s.pager.done = false → Within p₀ s.pager
  next : s.pager.done = false → ∀ p ∈ before, Past p₀.backward p s.pager
  count : before.length ≤ s.pager.emitted + if s.pager.done then 1 else 0

variable {p₀ call} {before : List StreamPager} {s : PageSource}

theorem Paged.start (hp : p₀.Valid) (hemitted : p₀.emitted = 0) : Paged p₀ call [] ⟨p₀, []⟩ where
  valid := hp
  continues := .refl p₀
  sent := rfl
  asked := by
    refine ⟨nofun, nofun, .nil, ?_⟩
    have := hp.limit_pos
    rw [List.length_nil]
    omega
  reached := fun _ ↦ Or.inl rfl
  next := fun _ ↦ nofun
  count := by
    rw [List.length_nil, hemitted]
    split_ifs <;> decide

theorem Paged.count_le (h : Paged p₀ call before s) (ho : s.pager.done = false) :
    (before.length : ℤ) ≤ s.pager.emitted := by
  have := h.count
  rw [ho] at this
  simpa using this

theorem Paged.asked_next (h : Paged p₀ call before s) (ho : s.pager.done = false) :
    Asked p₀ (before ++ [s.pager]) := by
  refine ⟨?_, ?_, ?_, ?_⟩
  · exact List.forall_mem_append.mpr
      ⟨h.asked.requested, List.forall_mem_singleton.mpr ⟨h.valid, h.continues, ho⟩⟩
  · exact List.forall_mem_append.mpr
      ⟨h.asked.window, List.forall_mem_singleton.mpr (h.reached ho)⟩
  · refine List.pairwise_append.mpr ⟨h.asked.apart, List.pairwise_singleton _ _, ?_⟩
    intro p hp q hq
    rw [List.mem_singleton.mp hq]
    exact h.next ho p hp
  · have hcount := h.count_le ho
    have hlt := h.valid.sound.emitted_lt ho
    have hlimit := h.continues.userLimit
    simp only [reader, plan] at hlt
    rw [List.length_append, List.length_singleton]
    omega

theorem Paged.step (h : Paged p₀ call before s) (ho : s.pager.done = false) {p' : StreamPager}
    {page : List StreamChunk} {rows : List LokiRow}
    (haccept : s.pager.awaiting.accept page = some (p', rows)) :
    Paged p₀ call (before ++ [s.pager]) ⟨p', s.sent ++ [call s.pager]⟩ := by
  obtain ⟨hvalid, hsame, hemitted, hmoved⟩ := accept_counts h.valid ho haccept
  rw [h.continues.backward] at hmoved
  have hcount := h.count_le ho
  have hlen : ((before ++ [s.pager]).length : ℤ) = before.length + 1 := by
    rw [List.length_append, List.length_singleton]
    rfl
  refine ⟨hvalid, h.continues.trans hsame, ?_, h.asked_next ho, ?_, ?_, ?_⟩
  · rw [List.map_append, ← h.sent]
    rfl
  · exact fun hopen ↦ Or.inr ((h.reached ho).past (hmoved hopen).2)
  · intro hopen
    have hpast := (hmoved hopen).2
    exact List.forall_mem_append.mpr
      ⟨fun p hp ↦ (h.next ho p hp).trans hpast, List.forall_mem_singleton.mpr hpast⟩
  · rw [hlen]
    cases hdone : p'.done with
    | true =>
      rw [if_pos rfl, hemitted]
      omega
    | false =>
      have hpos := List.length_pos_iff.mpr (hmoved hdone).1
      rw [if_neg Bool.false_ne_true, hemitted]
      omega

end Requests

section Window

def nextCall (endpoint : Str) (headers : List (Str × Str)) (p : StreamPager) : HttpCall :=
  ⟨endpoint, p.request, headers, 10, 60⟩

variable {p₀ p q : StreamPager} {endpoint : Str} {headers : List (Str × Str)}

theorem nextCall_ne (hp : p₀.Continues p) (hq : p₀.Continues q) (h : Past p₀.backward p q) :
    nextCall endpoint headers p ≠ nextCall endpoint headers q := by
  intro heq
  have hrequest : p.request = q.request := congrArg HttpCall.request heq
  have hread := ofRequest_request p
  rw [hrequest, ofRequest_request q, Option.some_inj, hp.backward, hq.backward] at hread
  obtain ⟨_, hstart, hend, _⟩ := RangeQuery.mk.inj hread
  unfold Past at h
  split_ifs at h hstart hend with hb
  · omega
  · omega

/-- A request keeps to the window, and asks for what a page can hold. -/
theorem ofRequest_within (hvalid : p.Valid) (ho : p.done = false) (hp : p₀.Continues p)
    (hcursor : p₀.cursorNs = if p₀.backward then p₀.endNs else p₀.startNs) (h : Within p₀ p) :
    ∃ q, RangeQuery.ofRequest p.request = some q ∧ q.query = p₀.logql ∧ p₀.startNs ≤ q.startNs ∧
      q.endNs ≤ p₀.endNs ∧ 1 ≤ q.limit ∧ q.limit ≤ p₀.perRequestCap ∧ q.backward = p₀.backward := by
  obtain ⟨hone, hcap⟩ := hvalid.requested_bounds ho
  rw [hp.perRequestCap] at hcap
  refine ⟨_, ofRequest_request p, hp.logql, ?_, ?_, hone, hcap, hp.backward⟩
  · dsimp only
    rw [hp.backward, hp.startNs]
    unfold Within Past at h
    split_ifs at * with hb <;> omega
  · dsimp only
    rw [hp.backward, hp.endNs]
    unfold Within Past at h
    split_ifs at * with hb <;> omega

end Window

section Run

variable {read : Str → Option Json} {server : ℕ → HttpCall → HttpResponse} {p₀ : StreamPager}
  {endpoint fnName : Str} {headers : List (Str × Str)} {before : List StreamPager}
  {s t : PageSource} {batch : List LokiRow}

/-- A fetch from a valid state sends the next call and takes in the page of its
response, or fails as the response does. -/
theorem fetchPage_valid (hvalid : s.pager.Valid) :
    fetchPage read server fnName endpoint headers s =
      match responseBody fnName (server s.sent.length (nextCall endpoint headers s.pager)) >>=
        parseStreamsResponse read with
      | .error message => some (.error message)
      | .ok page => (s.pager.awaiting.accept page).bind (fun accepted ↦
        some (.ok (⟨accepted.1, s.sent ++ [nextCall endpoint headers s.pager]⟩, accepted.2))) := by
  have hnext : s.pager.nextRequest = some (s.pager.awaiting, s.pager.request) :=
    nextRequest_eq hvalid
  unfold fetchPage
  rw [hnext]
  rfl

theorem fetchPage_ok (hvalid : s.pager.Valid)
    (hfetch : fetchPage read server fnName endpoint headers s = some (.ok (t, batch))) :
    ∃ page p', responseBody fnName (server s.sent.length (nextCall endpoint headers s.pager)) >>=
        parseStreamsResponse read = .ok page ∧
      s.pager.awaiting.accept page = some (p', batch) ∧
      t = ⟨p', s.sent ++ [nextCall endpoint headers s.pager]⟩ := by
  rw [fetchPage_valid hvalid] at hfetch
  split at hfetch
  case h_1 message hpage => cases hfetch
  case h_2 page hpage =>
    obtain ⟨⟨p', rows⟩, haccept, hresult⟩ := Option.bind_eq_some_iff.mp hfetch
    obtain ⟨ht, hrows⟩ := Prod.mk.inj (Except.ok.inj (Option.some.inj hresult))
    exact ⟨page, p', hpage, hrows ▸ haccept, ht.symm⟩

theorem fetchPage_error {message : Str} (hvalid : s.pager.Valid)
    (hfetch : fetchPage read server fnName endpoint headers s = some (.error message)) :
    responseBody fnName (server s.sent.length (nextCall endpoint headers s.pager)) >>=
      parseStreamsResponse read = .error message := by
  rw [fetchPage_valid hvalid] at hfetch
  split at hfetch
  case h_1 message' hpage =>
    rw [hpage, Except.error.inj (Option.some.inj hfetch)]
  case h_2 page hpage =>
    obtain ⟨_, _, hresult⟩ := Option.bind_eq_some_iff.mp hfetch
    cases hresult

theorem Paged.fetch (h : Paged p₀ (nextCall endpoint headers) before s)
    (ho : s.pager.done = false)
    (hfetch : fetchPage read server fnName endpoint headers s = some (.ok (t, batch))) :
    Paged p₀ (nextCall endpoint headers) (before ++ [s.pager]) t ∧
      t.pager.emitted = s.pager.emitted + batch.length := by
  obtain ⟨page, p', _, haccept, rfl⟩ := fetchPage_ok h.valid hfetch
  exact ⟨h.step ho haccept, (accept_counts h.valid ho haccept).2.2.1⟩

def pageCalls (endpoint : Str) (headers : List (Str × Str)) (s : PageSource) : List HttpCall :=
  (s.pager.nextRequest.map (fun next ↦ ⟨endpoint, next.2, headers, 10, 60⟩)).toList

theorem pageCalls_valid (hvalid : s.pager.Valid) :
    pageCalls endpoint headers s = [nextCall endpoint headers s.pager] := by
  rw [pageCalls, nextRequest_eq hvalid]
  rfl

theorem sent_of_fetch
    (hfetch : fetchPage read server fnName endpoint headers s = some (.ok (t, batch))) :
    t.sent = s.sent ++ pageCalls endpoint headers s ∧
      (pageCalls endpoint headers s).length = 1 := by
  obtain ⟨⟨pager, request⟩, hnext, hfetch⟩ := Option.bind_eq_some_iff.mp hfetch
  rw [pageCalls, hnext]
  refine ⟨?_, rfl⟩
  dsimp only at hfetch
  split at hfetch
  · cases hfetch
  · obtain ⟨_, _, hresult⟩ := Option.bind_eq_some_iff.mp hfetch
    obtain ⟨ht, _⟩ := Prod.mk.inj (Except.ok.inj (Option.some.inj hresult))
    rw [← ht]
    rfl

/-- The requests of one call of `LokiScanFunction`, also of one that raises an error. -/
def scanRequests (read : Str → Option Json) (server : ℕ → HttpCall → HttpResponse)
    (virtual : ℕ → Bool) (width : ℕ) (bind : ScanBindData) (state : ScanGlobalState)
    (reader : Streaming.Reader PageSource LokiRow) (fuel : ℕ) : List HttpCall :=
  ((pageSource read server bind state).fetches width
    (emitRow virtual bind.labelColumns state.columnIds) fuel reader []).flatMap
      (pageCalls state.endpoint state.headers)

variable {virtual : ℕ → Bool} {width : ℕ} {pushed : ScanBindData} {columnIds : List ℕ}
  {state : ScanGlobalState} {reader : Streaming.Reader PageSource LokiRow}
  {calls : List (Machines.Transition (Streaming.Reader PageSource LokiRow) ℕ (List (List Value)))}

/-- What a scan keeps from call to call: its requests are accounted for, and
every row that was taken in has been handed out or waits in the buffer. -/
structure Scanning (p₀ : StreamPager) (endpoint : Str) (headers : List (Str × Str)) (slots : ℕ)
    (reader : Streaming.Reader PageSource LokiRow) (out : List (List Value)) : Prop where
  paged : ∃ before, Paged p₀ (nextCall endpoint headers) before reader.source
  rows : out.length + (reader.buffer.drop reader.offset).length = reader.source.pager.emitted
  shape : ∀ row ∈ out, row.length = slots

theorem scanning_run (hp : p₀.Valid) (hemitted : p₀.emitted = 0)
    (hpager : state.pager = p₀)
    (hrun : Machines.Run (scanCall read server virtual width pushed state) state.reader calls
      reader) :
    Scanning p₀ state.endpoint state.headers state.columnIds.length reader
      (Streaming.Source.handedOut calls) := by
  refine Streaming.Source.run_induction
    (I := Scanning p₀ state.endpoint state.headers state.columnIds.length) ?_ ?_ ?_ hrun
  · intro r out x h hx
    obtain ⟨hlt, _⟩ := List.getElem?_eq_some_iff.mp hx
    refine ⟨h.paged, ?_, ?_⟩
    · have hrows := h.rows
      rw [List.length_drop] at hrows ⊢
      rw [List.length_append, List.length_singleton]
      dsimp only
      omega
    · refine List.forall_mem_append.mpr ⟨h.shape, List.forall_mem_singleton.mpr ?_⟩
      exact List.length_map _
  · intro r out s batch h hempty ho hfetch
    obtain ⟨before, hpaged⟩ := h.paged
    obtain ⟨hnext, hcount⟩ := hpaged.fetch ho hfetch
    refine ⟨⟨_, hnext⟩, ?_, h.shape⟩
    have hrows := h.rows
    rw [List.drop_eq_nil_of_le (List.getElem?_eq_none_iff.mp hempty), List.length_nil] at hrows
    dsimp only
    rw [List.drop_zero, hcount]
    omega
  · rw [ScanGlobalState.reader, hpager]
    refine ⟨⟨[], .start hp hemitted⟩, ?_, nofun⟩
    rw [hemitted]
    rfl

theorem sent_of_scanCall {next : Streaming.Reader PageSource LokiRow} {chunk : List (List Value)}
    {fuel : ℕ}
    (hcall : scanCall read server virtual width pushed state reader fuel = some (next, chunk)) :
    next.source.sent = reader.source.sent ++
      scanRequests read server virtual width pushed state reader fuel := by
  obtain ⟨result, hfill, hresult⟩ := Option.bind_eq_some_iff.mp hcall
  cases result with
  | error e => cases hresult
  | ok result =>
    rw [Option.some.inj hresult] at hfill
    exact Streaming.Source.fill_log (fun _ _ _ hfetch ↦ (sent_of_fetch hfetch).1) hfill

theorem asked_of_scanRequests
    (h : ∃ before, Paged p₀ (nextCall state.endpoint state.headers) before reader.source)
    (fuel : ℕ) :
    ∃ asked, Asked p₀ asked ∧ reader.source.sent ++
      scanRequests read server virtual width pushed state reader fuel =
        asked.map (nextCall state.endpoint state.headers) := by
  obtain ⟨r, _, ⟨before, hpaged⟩, hlogged⟩ := Streaming.Source.fill_fetches
    (S := pageSource read server pushed state) (I := fun r _ ↦ ∃ before,
      Paged p₀ (nextCall state.endpoint state.headers) before r.source)
    (fun _ _ _ hfetch ↦ (sent_of_fetch hfetch).1) (fun _ _ _ h _ _ ↦ h)
    (fun r _ s batch ⟨_, hpaged⟩ _ ho hfetch ↦ ⟨_, (hpaged.fetch ho hfetch).1⟩) h
  rcases hlogged with hsent | ⟨ho, hsent⟩
  · exact ⟨before, hpaged.asked, hsent.trans hpaged.sent⟩
  · refine ⟨before ++ [r.source.pager], hpaged.asked_next ho, hsent.trans ?_⟩
    rw [pageCalls_valid hpaged.valid, hpaged.sent, List.map_append]
    rfl

/-- Whatever the server answers, a scan hands out no more rows than its limit
and sends no more requests, never one twice; and each goes to the endpoint of
the bind with its headers, and asks for a page of the window. -/
theorem scan_safe (hlimit : 1 ≤ pushed.limit) (hmax : pushed.limit ≤ int64Max)
    (hstart : scanInitGlobal pushed columnIds = .ok state)
    (hrun : Machines.Run (scanCall read server virtual width pushed state) state.reader calls
      reader) :
    ((Streaming.Source.handedOut calls).length : ℤ) ≤ pushed.limit ∧
      (∀ row ∈ Streaming.Source.handedOut calls, row.length = columnIds.length) ∧
      (∀ x ∈ calls, x.event.length ≤ width) ∧
      ∀ fuel, let requests := reader.source.sent ++
          scanRequests read server virtual width pushed state reader fuel
        (requests.length : ℤ) ≤ pushed.limit ∧ requests.Nodup ∧
        ∀ call ∈ requests, call.endpoint = pushed.endpoint ∧
          call.headers = buildAuthHeaders pushed.auth ++
            [("X-Loki-Response-Encoding-Flags".toList, "categorize-labels".toList)] ∧
          ∃ q, RangeQuery.ofRequest call.request = some q ∧ q.query = effectiveQuery pushed ∧
            effectiveStart pushed ≤ q.startNs ∧ q.endNs ≤ effectiveEnd pushed ∧ 1 ≤ q.limit ∧
            q.limit ≤ 5000 ∧ q.backward = (pushed.direction != "forward".toList) := by
  unfold scanInitGlobal at hstart
  split_ifs at hstart
  obtain rfl := Except.ok.inj hstart
  let p₀ := StreamPager.new (effectiveQuery pushed) (effectiveStart pushed) (effectiveEnd pushed)
    pushed.direction pushed.limit defaultPerRequestCap
  have hp : p₀.Valid := new_valid hlimit hmax (by decide)
  obtain ⟨⟨before, hpaged⟩, hrows, hshape⟩ := scanning_run hp rfl rfl hrun
  have hlimit' : p₀.userLimit = pushed.limit := rfl
  have hemitted := hpaged.valid.emitted_le
  rw [hpaged.continues.userLimit, hlimit'] at hemitted
  refine ⟨by omega, hshape, Streaming.Source.run_chunk_le hrun, ?_⟩
  intro fuel requests
  obtain ⟨asked, hasked, hrequests⟩ : ∃ asked, Asked p₀ asked ∧ requests = asked.map
      (nextCall pushed.endpoint (buildAuthHeaders pushed.auth ++
        [("X-Loki-Response-Encoding-Flags".toList, "categorize-labels".toList)])) :=
    asked_of_scanRequests ⟨before, hpaged⟩ fuel
  rw [hrequests]
  refine ⟨?_, ?_, ?_⟩
  · rw [List.length_map]
    exact hasked.limit
  · rw [List.Nodup, List.pairwise_map]
    refine hasked.apart.imp_of_mem ?_
    intro p q hpmem hqmem hpast
    exact nextCall_ne (hasked.requested p hpmem).2.1 (hasked.requested q hqmem).2.1 hpast
  · intro call hcall
    obtain ⟨p, hmem, rfl⟩ := List.mem_map.mp hcall
    obtain ⟨hvalid, hsame, ho⟩ := hasked.requested p hmem
    exact ⟨rfl, rfl, ofRequest_within hvalid ho hsame rfl (hasked.window p hmem)⟩

end Run

end DuckdbLoki
