import DuckdbLoki.MalformedEntries
import DuckdbLoki.Projection
import DuckdbLoki.Streaming.Buffer

namespace DuckdbLoki

structure PageSource where
  pager : StreamPager
  sent : List HttpCall
deriving DecidableEq

def responseBody (fnName : Str) (response : HttpResponse) : Except Str Str :=
  if response.error ≠ [] then
    .error (fnName ++ ": request to Loki failed: ".toList ++ response.error)
  else if response.status < 200 ∨ response.status ≥ 300 then
    .error (fnName ++ ": Loki returned HTTP ".toList ++ toDecimal response.status ++
      ": ".toList ++ responseSnippet response.body 1000)
  else .ok response.body

section Scan

variable (read : Str → Option Json) (server : ℕ → HttpCall → HttpResponse)

/-- Fetch and decode the next page. There is no result when a sum of the pager
overflows. -/
def fetchPage (fnName endpoint : Str) (headers : List (Str × Str)) (s : PageSource) :
    Option (Except Str (PageSource × List LokiRow)) := do
  let (pager, request) ← s.pager.nextRequest
  let call : HttpCall := ⟨endpoint, request, headers, 10, 60⟩
  match responseBody fnName (server s.sent.length call) >>= parseStreamsResponse read with
  | .error message => some (.error message)
  | .ok page => do
    let (pager, rows) ← pager.accept page
    some (.ok (⟨pager, s.sent ++ [call]⟩, rows))

def pageSource (bind : ScanBindData) (state : ScanGlobalState) :
    Streaming.Source PageSource LokiRow Str where
  exhausted s := s.pager.done
  fetch := fetchPage read server bind.fnName state.endpoint state.headers

def ScanGlobalState.reader (state : ScanGlobalState) : Streaming.Reader PageSource LokiRow :=
  ⟨⟨state.pager, []⟩, [], 0⟩

variable (virtual : ℕ → Bool) (width : ℕ) (bind : ScanBindData) (state : ScanGlobalState)

/-- One call; `width` is `STANDARD_VECTOR_SIZE`, and a row of the chunk is what
its slots hold. -/
def lokiScanFunction (fuel : ℕ) (reader : Streaming.Reader PageSource LokiRow) :
    Option (Except Str (Streaming.Reader PageSource LokiRow × List (List Value))) :=
  (pageSource read server bind state).fill width
    (emitRow virtual bind.labelColumns state.columnIds) fuel reader []

/-- The calls that raise no error, as the steps of a machine. -/
def scanCall (reader : Streaming.Reader PageSource LokiRow) (fuel : ℕ) :
    Option (Streaming.Reader PageSource LokiRow × List (List Value)) :=
  (lokiScanFunction read server virtual width bind state fuel reader).bind Except.toOption

end Scan

section Calls

variable {read : Str → Option Json} {server : ℕ → HttpCall → HttpResponse} {virtual : ℕ → Bool}
  {width : ℕ} {bind : ScanBindData} {state : ScanGlobalState} {batches : List (List LokiRow)}
  {reader : Streaming.Reader PageSource LokiRow}
  {calls : List (Machines.Transition (Streaming.Reader PageSource LokiRow) ℕ (List (List Value)))}

theorem streams_reader
    (h : (pageSource read server bind state).Delivers ⟨state.pager, []⟩ batches) :
    (pageSource read server bind state).Streams state.reader batches batches.flatten := ⟨h, rfl⟩

/-- Over every run of calls: the chunks hold, in order, the rows that `Accept`
returned, and all of them once a chunk is empty. The run can always go on, it
comes to an empty chunk, and from there on nothing changes. -/
theorem scanCall_run (hwidth : 0 < width)
    (hpages : (pageSource read server bind state).Delivers ⟨state.pager, []⟩ batches)
    (hrun : Machines.Run (scanCall read server virtual width bind state) state.reader calls
      reader) :
    let rows := batches.flatten.map (emitRow virtual bind.labelColumns state.columnIds)
    (∀ x ∈ calls, x.event.length ≤ width) ∧
      Streaming.Source.handedOut calls <+: rows ∧
      (∀ xs x ys, calls = xs ++ x :: ys → x.event = [] →
        Streaming.Source.handedOut xs = rows ∧ x.after.source.pager.done = true ∧
          x.after.buffer.length ≤ x.after.offset ∧
          ∀ y ∈ ys, y.event = [] ∧ y.after = x.after) ∧
      (rows.length < calls.length → ∃ x ∈ calls, x.event = []) ∧
      ∀ fuel, width + batches.length < fuel →
        ∃ next, scanCall read server virtual width bind state reader fuel = some next := by
  have hstreams := streams_reader hpages
  refine ⟨hstreams.chunk_le hrun, ?_, ?_, ?_, ?_⟩
  · obtain ⟨_, left, _, _, hsplit⟩ := hstreams.run hrun
    exact ⟨_, hsplit⟩
  · intro xs x ys hcalls hempty
    rw [hcalls] at hrun
    obtain ⟨hdrained, hrows, hrest⟩ := hstreams.empty_chunk hrun hwidth hempty
    exact ⟨hrows, hdrained.1, hdrained.2, hrest⟩
  · intro hmany
    rw [List.length_map] at hmany
    exact hstreams.ends hrun hmany
  · intro fuel hfuel
    exact hstreams.next hrun hfuel

end Calls

section Samples

def sampleScan : ScanGlobalState where
  endpoint := "http://loki:3100".toList
  headers := []
  pager := .new "\x7bapp=\"web\"\x7d".toList (-10) 10 "backward".toList 5 5000
  columnIds := [1]

def sampleServer (_ : ℕ) (_ : HttpCall) : HttpResponse := ⟨200, sampleBody "up", []⟩

set_option maxRecDepth 8000 in
/-- One row in chunks of one: the second call ends the stream. -/
theorem scanCall_run_sample : ∃ calls reader,
    Machines.Run (scanCall (sampleRead "up" "up".toList) sampleServer (fun _ ↦ false) 1 {}
      sampleScan) sampleScan.reader calls reader ∧
    calls.map Machines.Transition.event = [[[.varchar "up".toList]], []] ∧
    reader.source.pager.done = true ∧
    Streaming.Source.handedOut calls <+: [[.varchar "up".toList]] := by
  have hpages : (pageSource (sampleRead "up" "up".toList) sampleServer {} sampleScan).Delivers
      ⟨sampleScan.pager, []⟩ [[⟨-7, "up".toList, (sampleChunk []).labels, .empty⟩]] := by
    refine .fetch rfl rfl (.done rfl)
  obtain ⟨calls, reader, hexec⟩ : ∃ calls reader, Machines.exec (scanCall
      (sampleRead "up" "up".toList) sampleServer (fun _ ↦ false) 1 {} sampleScan)
      sampleScan.reader [3, 3] = some (calls, reader) := ⟨_, _, rfl⟩
  have hrun := Machines.exec_run hexec
  have hcalls := scanCall_run Nat.one_pos hpages hrun
  obtain ⟨rfl, rfl⟩ := Prod.mk.inj (Option.some.inj hexec)
  exact ⟨_, _, hrun, rfl, rfl, hcalls.2.1⟩

end Samples

end DuckdbLoki
