import DuckdbLoki.Discovery
import DuckdbLoki.ScanFunction
import DuckdbLoki.Streaming.Once

namespace DuckdbLoki

section Parse

/-- The label sets of a `data` array; an element that is no object has none. -/
def parseSeriesResponse (read : Str → Option Json) (body : Str) :
    Except Str (List StringMap) :=
  match read body with
  | none => .error ("Loki response is not valid JSON: ".toList ++ responseSnippet body 500)
  | some root =>
    match root.objGet "data".toList with
    | some (.array elems) => .ok (elems.map (fun elem ↦ stringMembers (some elem)))
    | _ =>
      .error ("Loki response missing array 'data' field: ".toList ++ responseSnippet body 500)

inductive DiscoveryRow
  | text (s : Str)
  | labels (m : StringMap)
deriving DecidableEq

def DiscoveryRow.value : DiscoveryRow → Value
  | .text s => .varchar s
  | .labels m => lokiMapFromStrings m

def parseDiscovery (read : Str → Option Json) (kind : DiscoveryKind) (body : Str) :
    Except Str (List DiscoveryRow) :=
  match kind with
  | .series => (parseSeriesResponse read body).map (List.map .labels)
  | _ => (parseStringArrayResponse read body).map (List.map .text)

end Parse

section Function

def DiscoveryKind.fn : DiscoveryKind → Str
  | .labels => "loki_labels".toList
  | .labelValues => "loki_label_values".toList
  | .series => "loki_series".toList

def LokiDiscoveryGlobalState.call (state : LokiDiscoveryGlobalState) : HttpCall :=
  ⟨state.endpoint, state.request, state.headers, 10, 60⟩

variable (read : Str → Option Json) (server : ℕ → HttpCall → HttpResponse)
  (kind : DiscoveryKind) (state : LokiDiscoveryGlobalState)

/-- The rows of the answer; the world is the requests sent so far. -/
def fetchDiscovery (sent : List HttpCall) : Except Str (List HttpCall × List DiscoveryRow) :=
  match responseBody kind.fn (server sent.length state.call) with
  | .error message => .error message
  | .ok body =>
    match parseDiscovery read kind body with
    | .error message => .error (kind.fn ++ ": ".toList ++ message)
    | .ok rows => .ok (sent ++ [state.call], rows)

/-- One call; `width` is `STANDARD_VECTOR_SIZE`. -/
def lokiDiscoveryFunction (width : ℕ) (progress : Streaming.Once (List HttpCall) DiscoveryRow) :
    Except Str (Streaming.Once (List HttpCall) DiscoveryRow × List Value) :=
  Streaming.Once.call (fetchDiscovery read server kind state) width DiscoveryRow.value progress

def discoveryCall (width : ℕ) (progress : Streaming.Once (List HttpCall) DiscoveryRow) (_ : Unit) :
    Option (Streaming.Once (List HttpCall) DiscoveryRow × List Value) :=
  (lokiDiscoveryFunction read server kind state width progress).toOption

end Function

section Runs

variable {read : Str → Option Json} {server : ℕ → HttpCall → HttpResponse}
  {kind : DiscoveryKind} {state : LokiDiscoveryGlobalState} {width : ℕ}
  {t : Streaming.Once (List HttpCall) DiscoveryRow}
  {calls : List (Machines.Transition (Streaming.Once (List HttpCall) DiscoveryRow) Unit
    (List Value))}

/-- Whatever the server answers, it is asked at most once, and for the call that
was bound. -/
theorem discovery_sent
    (hrun : Machines.Run (discoveryCall read server kind state width) { world := [] } calls t) :
    t.world = [] ∨ t.world = [state.call] := by
  cases hask : fetchDiscovery read server kind state [] with
  | error message =>
    rw [(Streaming.Once.run_refused hask hrun).2]
    exact Or.inl rfl
  | ok answer =>
    obtain ⟨world, rows⟩ := answer
    have hworld : world = [state.call] := by
      unfold fetchDiscovery at hask
      split at hask
      · cases hask
      · split at hask
        · cases hask
        · exact (Prod.mk.inj (Except.ok.inj hask)).1.symm
    obtain ⟨ht, _⟩ := Streaming.Once.run_eq hask hrun
    rw [ht]
    split_ifs
    · exact Or.inl rfl
    · exact Or.inr hworld

end Runs

end DuckdbLoki
