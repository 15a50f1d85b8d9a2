import DuckdbLoki.Requests
import DuckdbLoki.Paging.Reader
import DuckdbLoki.Reading.Framing

namespace DuckdbLoki

structure StreamEntry where
  tsNs : ℤ
  line : Str
  structuredMetadata : StringMap
deriving DecidableEq

structure StreamChunk where
  labels : StringMap
  values : List StreamEntry
deriving DecidableEq

structure LokiRow where
  tsNs : ℤ
  line : Str
  labels : StringMap
  structuredMetadata : StringMap
deriving DecidableEq

def StreamChunk.rows (c : StreamChunk) : List LokiRow :=
  c.values.map (fun e ↦ ⟨e.tsNs, e.line, c.labels, e.structuredMetadata⟩)

def pageRows (page : List StreamChunk) : List LokiRow := page.flatMap StreamChunk.rows

def entryKey (tsNs : ℤ) (line : Str) (labels : StringMap) : Str :=
  toDecimal tsNs ++ '\x1f' :: (line ++
    labels.pairs.flatMap (fun l ↦ '\x1e' :: l.1 ++ '\x1d' :: l.2))

def LokiRow.key (r : LokiRow) : Str := entryKey r.tsNs r.line r.labels

/-- The timestamp opens the key and holds no separator. -/
theorem entryKey_tsNs {t t' : ℤ} {l l' : Str} {m m' : StringMap}
    (h : entryKey t l m = entryKey t' l' m') : t = t' := by
  have hsep : ∀ x : ℤ, '\x1f' ∉ toDecimal x := by
    intro x hx
    rcases mem_toDecimal hx with h | h
    · exact absurd h (by decide)
    · exact absurd h (by decide)
  exact toDecimal_injective (Framing.cut_left (hsep t) (hsep t') h).1

structure StreamPager where
  logql : Str
  startNs : ℤ
  endNs : ℤ
  backward : Bool
  userLimit : ℤ
  perRequestCap : ℤ
  cursorNs : ℤ
  emitted : ℤ
  requestedThisPage : ℤ
  done : Bool
  boundaryKeys : Finset Str
deriving DecidableEq

def defaultPerRequestCap : ℤ := 5000

def StreamPager.new (logql : Str) (startNs endNs : ℤ) (direction : Str) (userLimit : ℤ)
    (perRequestCap : ℤ) : StreamPager :=
  let backward := direction != "forward".toList
  { logql := logql, startNs := startNs, endNs := endNs, backward := backward,
    userLimit := userLimit, perRequestCap := perRequestCap,
    cursorNs := if backward then endNs else startNs,
    emitted := 0, requestedThisPage := 0, done := false, boundaryKeys := ∅ }

namespace StreamPager

/-- Build the request for the next page. The boundary nanosecond is served
again, so its entries are asked for on top of the remaining ones. -/
def nextRequest (p : StreamPager) : Option (StreamPager × QueryRangeRequest) := do
  let remaining ← checked (p.userLimit - p.emitted)
  let want ← checked (remaining + p.boundaryKeys.card)
  let requested := min want p.perRequestCap
  let start := if p.backward then p.startNs else p.cursorNs
  let stop := if p.backward then p.cursorNs else p.endNs
  some ({ p with requestedThisPage := requested },
    buildQueryRangeRequest p.logql start stop requested
      (if p.backward then "backward".toList else "forward".toList))

/-- The locals of the first loop of `Accept`, and the emitted count it moves. -/
structure PageScan where
  rows : List LokiRow
  pageCount : ℤ
  haveExtreme : Bool
  extremeNs : ℤ
  emitted : ℤ

/-- The body of the first loop. The count of emitted rows grows only below
the user limit, so it cannot overflow. -/
def scanEntry (p : StreamPager) (labels : StringMap) (st : PageScan) (entry : StreamEntry) :
    PageScan :=
  let ts := entry.tsNs
  let extreme :=
    if !st.haveExtreme then ts
    else if p.backward then min st.extremeNs ts
    else max st.extremeNs ts
  let st := { st with pageCount := st.pageCount + 1, haveExtreme := true, extremeNs := extreme }
  if st.emitted ≥ p.userLimit then st
  else if entryKey ts entry.line labels ∈ p.boundaryKeys then st
  else
    { st with
      rows := st.rows ++ [⟨ts, entry.line, labels, entry.structuredMetadata⟩]
      emitted := st.emitted + 1 }

def scanPage (p : StreamPager) (page : List StreamChunk) : PageScan :=
  page.foldl (fun st chunk ↦ chunk.values.foldl (p.scanEntry chunk.labels) st)
    ⟨[], 0, false, 0, p.emitted⟩

/-- The second loop: the keys of the page's entries at its extreme timestamp. -/
def boundaryOf (page : List StreamChunk) (extremeNs : ℤ) : Finset Str :=
  page.foldl (fun keys chunk ↦ chunk.values.foldl (fun keys entry ↦
    if entry.tsNs = extremeNs then insert (entryKey entry.tsNs entry.line chunk.labels) keys
    else keys) keys) ∅

/-- The cursor nudged past the extreme nanosecond of a page, so that it is
scanned again; there is no result where the sum overflows. -/
def nextCursor (p : StreamPager) (extremeNs : ℤ) : Option ℤ :=
  if p.backward then checked (extremeNs + 1) else some extremeNs

def progressed (p : StreamPager) (nextCursor : ℤ) : Bool :=
  if p.backward then nextCursor < p.cursorNs else nextCursor > p.cursorNs

def accept (p : StreamPager) (page : List StreamChunk) : Option (StreamPager × List LokiRow) :=
  let st := p.scanPage page
  let finished := ({ p with emitted := st.emitted, done := true }, st.rows)
  if st.pageCount < p.requestedThisPage ∨ st.emitted ≥ p.userLimit then some finished
  else (p.nextCursor st.extremeNs).map (fun nextCursor ↦
    if ¬ p.progressed nextCursor then finished
    else ({ p with
      emitted := st.emitted
      cursorNs := nextCursor
      boundaryKeys := boundaryOf page st.extremeNs }, st.rows))

structure Turn where
  before : StreamPager
  request : QueryRangeRequest
  page : List StreamChunk
  rows : List LokiRow
  after : StreamPager

/-- The fetch loop against a server, which may answer each turn differently.
There is no result when a sum overflows or the turns run out. -/
def drain (server : ℕ → QueryRangeRequest → List StreamChunk) (n : ℕ) :
    ℕ → StreamPager → Option (StreamPager × List Turn)
  | fuel, p =>
    if p.done then some (p, [])
    else match fuel with
      | 0 => none
      | fuel + 1 => do
        let (p₁, request) ← p.nextRequest
        let page := server n request
        let (p₂, rows) ← p₁.accept page
        let (q, turns) ← drain server (n + 1) fuel p₂
        some (q, ⟨p, request, page, rows, p₂⟩ :: turns)

def drainedRows (turns : List Turn) : List LokiRow := turns.flatMap Turn.rows

end StreamPager

end DuckdbLoki
