import DuckdbLoki.Base

namespace DuckdbLoki

/-- A request to a Loki endpoint: a path and its unencoded parameters. -/
structure QueryRangeRequest where
  path : Str
  params : List (Str × Str)
deriving DecidableEq

def hexByte (c : Char) : Str :=
  [Nat.digitChar (c.toNat / 16), Nat.digitChar (c.toNat % 16)].map Char.toUpper

def urlEncodeChar (c : Char) : Str :=
  if c.isAlphanum ∨ c = '-' ∨ c = '_' ∨ c = '.' ∨ c = '~' then [c] else '%' :: hexByte c

def urlEncode (value : Str) : Str := value.flatMap urlEncodeChar

def buildQueryRangeRequest (logql : Str) (startNs endNs limit : ℤ) (direction : Str) :
    QueryRangeRequest where
  path := "/loki/api/v1/query_range".toList
  params := [("query".toList, logql), ("start".toList, toDecimal startNs),
    ("end".toList, toDecimal endNs), ("limit".toList, toDecimal limit),
    ("direction".toList, direction)]

/-- The bounds of a discovery request; a negative one leaves the choice to
Loki. -/
def appendTimeBounds (request : QueryRangeRequest) (startNs endNs : ℤ) : QueryRangeRequest :=
  { request with
    params := request.params ++
      (if startNs ≥ 0 then [("start".toList, toDecimal startNs)] else []) ++
      (if endNs ≥ 0 then [("end".toList, toDecimal endNs)] else []) }

def buildLabelsRequest (startNs endNs : ℤ) : QueryRangeRequest :=
  appendTimeBounds ⟨"/loki/api/v1/labels".toList, []⟩ startNs endNs

def buildLabelValuesRequest (name : Str) (startNs endNs : ℤ) (query : Str) : QueryRangeRequest :=
  let request := appendTimeBounds
    ⟨"/loki/api/v1/label/".toList ++ urlEncode name ++ "/values".toList, []⟩ startNs endNs
  if query = [] then request
  else { request with params := request.params ++ [("query".toList, query)] }

def buildSeriesRequest (selector : Str) (startNs endNs : ℤ) : QueryRangeRequest :=
  appendTimeBounds ⟨"/loki/api/v1/series".toList, [("match[]".toList, selector)]⟩ startNs endNs

def buildQueryString (request : QueryRangeRequest) : Str :=
  ['&'].intercalate (request.params.map (fun param ↦
    urlEncode param.1 ++ '=' :: urlEncode param.2))

structure RangeQuery where
  query : Str
  startNs : ℤ
  endNs : ℤ
  limit : ℤ
  backward : Bool
deriving DecidableEq

def readDirection (s : Str) : Option Bool :=
  if s = "backward".toList then some true
  else if s = "forward".toList then some false
  else none

def RangeQuery.ofRequest (r : QueryRangeRequest) : Option RangeQuery := do
  if r.path ≠ "/loki/api/v1/query_range".toList then none
  let query ← r.params.lookup "query".toList
  let startNs ← (r.params.lookup "start".toList).bind readDecimal
  let endNs ← (r.params.lookup "end".toList).bind readDecimal
  let limit ← (r.params.lookup "limit".toList).bind readDecimal
  let backward ← (r.params.lookup "direction".toList).bind readDirection
  some ⟨query, startNs, endNs, limit, backward⟩

theorem ofRequest_build (logql : Str) (startNs endNs limit : ℤ) (backward : Bool) :
    RangeQuery.ofRequest (buildQueryRangeRequest logql startNs endNs limit
      (if backward then "backward".toList else "forward".toList)) =
      some ⟨logql, startNs, endNs, limit, backward⟩ := by
  let r := buildQueryRangeRequest logql startNs endNs limit
    (if backward then "backward".toList else "forward".toList)
  have hpath : r.path = "/loki/api/v1/query_range".toList := rfl
  have hquery : r.params.lookup "query".toList = some logql := rfl
  have hstart : r.params.lookup "start".toList = some (toDecimal startNs) := rfl
  have hend : r.params.lookup "end".toList = some (toDecimal endNs) := rfl
  have hlimit : r.params.lookup "limit".toList = some (toDecimal limit) := rfl
  have hdir : (r.params.lookup "direction".toList).bind readDirection = some backward := by
    cases backward <;> rfl
  change RangeQuery.ofRequest r = _
  rw [RangeQuery.ofRequest, hpath, hquery, hstart, hend, hlimit, hdir]
  simp only [ne_eq, not_true_eq_false, if_false, Option.bind_some, readDecimal_toDecimal,
    Option.bind_eq_bind]

end DuckdbLoki
