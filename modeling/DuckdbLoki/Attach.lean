import DuckdbLoki.Catalog
import DuckdbLoki.TimeBounds

namespace DuckdbLoki

section Options

/-- What the type of a value tells `ATTACH`. The integer of an integral value
is that of `GetValue`, which throws where it does not fit. -/
inductive ValueKind
  | null
  | list (children : List (Option Str))
  | interval (months days micros : ℤ)
  | integral (value : Except Str ℤ)
  | other

structure AttachValue where
  kind : ValueKind
  text : Str

structure AttachOptions where
  connection : ConnectionOptions := {}
  labels : Option AttachValue := none
  labelCacheTtl : Option AttachValue := none
  seriesMaxRows : Option AttachValue := none
  tenants : Option AttachValue := none

def trimSpaces (s : Str) : Str := (s.dropWhile isCSpace).rdropWhile isCSpace

def parseStringListOption : Option AttachValue → List Str
  | none => []
  | some value =>
    match value.kind with
    | .null => []
    | .list children => children.reduceOption
    | _ => ((value.text.splitOn ',').map trimSpaces).filter (· ≠ [])

def readTtl (value : AttachValue) : ExceptT TimeError Option ℤ :=
  match value.kind with
  | .interval months days micros => do
    let nanos ← intervalToNanos months days micros
    if nanos < 0 then throw (.invalidArgument "negative".toList)
    return nanos
  | .integral (.ok seconds) =>
    if seconds < 0 then throw (.invalidArgument "negative".toList)
    else orThrow (tryMultiplyNanos seconds (1000 * 1000 * 1000) 0)
      (.outOfRange "too large".toList)
  | .integral (.error message) => throw (.outOfRange message)
  | _ => parseDurationToNanos value.text

def invalidTtl (key text : Str) : Str :=
  "ATTACH (TYPE loki): invalid `".toList ++ key ++ "` value '".toList ++ text ++
    ("' \u00e2\u0080\u0094 pass a non-negative INTERVAL, a number of seconds, or a duration " ++
      "string like '30s', '5m', '1h' (0 disables time-based refresh)").toList

def parseTtlOption (value : Option AttachValue) (key : Str) : ExceptT Str Option ℤ :=
  match value with
  | none => pure 0
  | some value =>
    match value.kind with
    | .null => pure 0
    | _ => (readTtl value).adapt (fun _ ↦ invalidTtl key value.text)

def invalidSeriesMaxRows (text : Str) : Str :=
  "ATTACH (TYPE loki): `series_max_rows` must be a positive integer, got '".toList ++ text ++
    "'".toList

def parseSeriesMaxRows : Option AttachValue → Except Str ℕ
  | none => .ok 100000
  | some value =>
    match value.kind with
    | .null => .ok 100000
    | .integral (.ok rows) =>
      if 0 < rows then .ok rows.toNat else .error (invalidSeriesMaxRows value.text)
    | .integral (.error message) => .error message
    | _ => .error (invalidSeriesMaxRows value.text)

def checkExplicitLabels (seen : List Str) : List Str → Except Str Unit
  | [] => .ok ()
  | label :: labels =>
    if ¬ isValidLabelName label then
      .error ("ATTACH (TYPE loki): invalid label name '".toList ++ label ++
        ("' in the `labels` option; label names must match [a-zA-Z_][a-zA-Z0-9_]*").toList)
    else if isReservedColumnName label then
      .error ("ATTACH (TYPE loki): label '".toList ++ label ++
        ("' cannot be promoted \u00e2\u0080\u0094 that name is already one of the fixed `logs` " ++
          "columns (timestamp, line, labels, structured_metadata); read it from the labels MAP " ++
          "instead, e.g. labels['").toList ++ label ++ "']".toList)
    else if seen.any (ciEquals label) then
      .error ("ATTACH (TYPE loki): duplicate label '".toList ++ label ++
        "' in the `labels` option".toList)
    else checkExplicitLabels (seen ++ [label]) labels

end Options

section Attach

variable (read : Str → Option Json) (server : ℕ → HttpCall → HttpResponse)

/-- The columns of the `i`-th tenant: the explicit labels, or else what the
server answers. -/
def resolveLabels (endpoint : Str) (auth : AuthConfig) (explicitLabels : Option (List Str)) (i : ℕ)
    (tenantId : Str) : Except Str (List Str) :=
  match explicitLabels with
  | some labels => .ok labels
  | none => fetchLokiLabelNames read
      (server i (labelNamesCall endpoint (tenantAuth auth tenantId) 10 60))

def attachTenant (endpoint : Str) (auth : AuthConfig) (explicitLabels : Option (List Str))
    (schemaName : Str) (tenantId : Str × ℕ) : Except Str LokiTenant :=
  (resolveLabels read server endpoint auth explicitLabels tenantId.2 tenantId.1).map
    (fun labels ↦ ⟨schemaName, tenantId.1, labels⟩)

def attachTenants (endpoint : Str) (auth : AuthConfig) (explicitLabels : Option (List Str))
    (tenantIds : List Str) : Except Str (List LokiTenant) :=
  if tenantIds = [] then
    (attachTenant read server endpoint auth explicitLabels "public".toList (auth.tenant, 0)).map
      (fun tenant ↦ [tenant])
  else tenantIds.zipIdx.mapM (fun tenantId ↦
    attachTenant read server endpoint auth explicitLabels tenantId.1 tenantId)

def checkTtlWithLabels (labelsExplicit : Bool) (ttlNs : ℤ) : Except Str Unit :=
  if labelsExplicit ∧ ttlNs ≠ 0 then
    .error ("ATTACH (TYPE loki): `label_cache_ttl` applies to auto-discovered label columns, " ++
      "but `labels` was given, which pins them; drop one of the two options").toList
  else .ok ()

def attachConfig (endpoint : Str) (auth : AuthConfig) (options : AttachOptions) :
    ExceptT Str Option LokiCatalogConfig := do
  let explicitLabels := options.labels.map (fun value ↦ parseStringListOption (some value))
  ExceptT.mk (some (checkExplicitLabels [] (parseStringListOption options.labels)))
  let ttlNs ← parseTtlOption options.labelCacheTtl "label_cache_ttl".toList
  ExceptT.mk (some (checkTtlWithLabels options.labels.isSome ttlNs))
  let seriesMaxRows ← ExceptT.mk (some (parseSeriesMaxRows options.seriesMaxRows))
  let tenants ← ExceptT.mk (some (attachTenants read server endpoint auth explicitLabels
    (parseStringListOption options.tenants)))
  return {
    endpoint := endpoint
    auth := auth
    tenants := tenants
    labelsPinned := options.labels.isSome
    labelCacheTtlNs := ttlNs
    seriesMaxRows := seriesMaxRows }

def lokiAttach (m : SecretManager) (store : List Secret) (path : Str) (options : AttachOptions) :
    ExceptT Str Option LokiCatalogConfig := do
  let (endpoint, auth) ← ExceptT.mk (some (resolveLokiConnectionFromOptions m store path
    options.connection "ATTACH (TYPE loki)".toList))
  attachConfig read server endpoint auth options

end Attach

end DuckdbLoki
