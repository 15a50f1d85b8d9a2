import DuckdbLoki.Auth
import Mathlib.Data.List.DropRight
import Mathlib.Data.List.MinMax

namespace DuckdbLoki

/-- The values of a secret, or of a call, that make up a connection; one that
is absent or NULL is `none`. An entry of the headers is a struct of its parts. -/
structure ConnectionFields where
  endpoint : Option Str := none
  token : Option Str := none
  username : Option Str := none
  password : Option Str := none
  tenant : Option Str := none
  headers : Option (List (List (Option Str))) := none
deriving DecidableEq

structure Secret where
  type : Str
  name : Str
  scope : List Str
  fields : Option ConnectionFields
deriving DecidableEq

structure ConnectionOptions extends ConnectionFields where
  secret : Option Str := none
deriving DecidableEq

structure SecretManager where
  matchScore : Secret → Str → ℤ
  lookupSecret : List Secret → Str → Str → Option Secret
  getSecretByName : List Secret → Str → Option Secret

structure ConnectionState where
  endpoint : Str
  auth : AuthConfig
  headers : List (Str × Str)
deriving DecidableEq

def ConnectionState.initial : ConnectionState := ⟨[], ⟨[], [], [], [], []⟩, []⟩

section Reading

def appendHeaders : List (List (Option Str)) → List (Str × Str) → Except Str (List (Str × Str))
  | [], out => .ok out
  | [some k, some v] :: entries, out => appendHeaders entries (out ++ [(k, v)])
  | [some k, none] :: _, _ =>
    .error ("loki: header '".toList ++ k ++
      "' has a NULL value; drop the entry or pass an empty string".toList)
  | _ :: entries, out => appendHeaders entries out

def appendHeadersFromMap (map : Option (List (List (Option Str)))) (out : List (Str × Str)) :
    Except Str (List (Str × Str)) :=
  match map with
  | none => .ok out
  | some entries => appendHeaders entries out

def requireLokiSecret (fn : Str) (secret : Secret) (name : Str) : Except Str ConnectionFields :=
  if secret.type ≠ "loki".toList then
    .error (fn ++ ": secret '".toList ++ name ++ "' has type '".toList ++ secret.type ++
      ("', expected type 'loki' \u00e2\u0080\u0094 create one with CREATE SECRET (TYPE loki, " ++
        "ENDPOINT ...)").toList)
  else match secret.fields with
    | none => .error (fn ++ ": secret '".toList ++ name ++ "' is not a key-value secret".toList)
    | some kv => .ok kv

def readLokiSecret (kv : ConnectionFields) (st : ConnectionState) : Except Str ConnectionState :=
  (appendHeadersFromMap kv.headers st.headers).map (fun headers ↦
    { endpoint := kv.endpoint.getD st.endpoint
      auth := { st.auth with
        token := kv.token.getD st.auth.token
        username := kv.username.getD st.auth.username
        password := kv.password.getD st.auth.password
        tenant := kv.tenant.getD st.auth.tenant }
      headers := headers })

/-- The inline values take precedence; inline headers replace the secret's. -/
def applyOverrides (endpoint : Option Str) (inline : ConnectionFields) (st : ConnectionState) :
    Except Str ConnectionState :=
  (appendHeadersFromMap inline.headers (if inline.headers.isSome then [] else st.headers)).map
    (fun headers ↦
    { endpoint := endpoint.getD st.endpoint
      auth := { st.auth with
        token := inline.token.getD st.auth.token
        username := inline.username.getD st.auth.username
        password := inline.password.getD st.auth.password
        tenant := inline.tenant.getD st.auth.tenant }
      headers := headers })

def finishConnection (fn required : Str) (st : ConnectionState) : Except Str (Str × AuthConfig) :=
  if st.endpoint = [] then .error (fn ++ required)
  else .ok (st.endpoint.rdropWhile (· = '/'), { st.auth with extraHeaders := st.headers })

variable (m : SecretManager) (store : List Secret)

def isDefaultMatch (path : Str) (bestScore : ℤ) (secret : Secret) : Bool :=
  secret.type = "loki".toList ∧ secret.name = "__default_loki".toList ∧
    m.matchScore secret path = bestScore

def lookupBestLokiSecret (path : Str) : Option Secret :=
  match m.lookupSecret store path "loki".toList with
  | none => none
  | some best =>
    match store.find? (isDefaultMatch m path (m.matchScore best path)) with
    | some secret => some secret
    | none => some best

def readFound (fn : Str) : Option Secret → Except Str ConnectionState
  | none => .ok .initial
  | some s => (requireLokiSecret fn s s.name).bind (readLokiSecret · .initial)

def readSecret (fn : Str) (name : Option Str) (path : Str) : Except Str ConnectionState :=
  match name with
  | some name =>
    match m.getSecretByName store name with
    | none => .error (fn ++ ": no secret named '".toList ++ name ++ "' found".toList)
    | some s => (requireLokiSecret fn s name).bind (readLokiSecret · .initial)
  | none => readFound fn (lookupBestLokiSecret m store path)

def resolveLokiConnection (params : ConnectionOptions) (fn : Str) :
    Except Str (Str × AuthConfig) :=
  let inlineEndpoint := params.endpoint.getD []
  (readSecret m store fn params.secret inlineEndpoint).bind (fun st ↦
    (applyOverrides params.endpoint params.toConnectionFields st).bind (finishConnection fn
      (" requires an endpoint: pass endpoint := 'http://localhost:3100' or reference a secret " ++
        "(secret := 'my_loki', or a default secret created with CREATE SECRET (TYPE loki, " ++
        "ENDPOINT ...))").toList))

end Reading

section Attach

def lower (s : Str) : Str := s.map Char.toLower

def barePath (path : Str) : Str := if "loki:".toList <+: lower path then path.drop 5 else path

def pathIsUrl (path : Str) : Bool :=
  "http://".toList <+: lower (barePath path) ∨ "https://".toList <+: lower (barePath path)

def attachSecretName (path : Str) (options : ConnectionOptions) : Str :=
  match options.secret with
  | some name => name
  | none => if ¬ pathIsUrl path ∧ barePath path ≠ [] then barePath path else []

def attachEndpoint (path : Str) (options : ConnectionOptions) : Option Str :=
  match options.endpoint with
  | some endpoint => some endpoint
  | none => if pathIsUrl path then some (barePath path) else none

def resolveLokiConnectionFromOptions (m : SecretManager) (store : List Secret) (path : Str)
    (options : ConnectionOptions) (fn : Str) : Except Str (Str × AuthConfig) :=
  let name := attachSecretName path options
  let inlineEndpoint := (attachEndpoint path options).getD []
  (readSecret m store fn (if name ≠ [] then some name else none) inlineEndpoint).bind (fun st ↦
    (applyOverrides (attachEndpoint path options) options.toConnectionFields st).bind
      (finishConnection fn
        (" requires an endpoint: ATTACH an http(s):// URL (optionally written " ++
          "'loki:http://...', which avoids DuckDB's httpfs requirement for remote paths), pass " ++
          "ENDPOINT, or reference a loki secret (SECRET 'my_loki', or a default CREATE SECRET " ++
          "(TYPE loki, ENDPOINT ...))").toList))

end Attach

section Scope

def SecretManager.covers (m : SecretManager) (path : Str) (s : Secret) : Bool :=
  s.type = "loki".toList ∧ int64Min < m.matchScore s path

def SecretManager.covering (m : SecretManager) (store : List Secret) (path : Str) : List Secret :=
  store.filter (m.covers path)

/-- What is relied on of `LookupSecret`: it looks at the covering secrets alone
and finds one of maximal score. -/
structure SecretManager.Lawful (m : SecretManager) : Prop where
  lookup_congr : ∀ {store store' : List Secret} {path : Str},
    m.covering store path = m.covering store' path →
      m.lookupSecret store path "loki".toList = m.lookupSecret store' path "loki".toList
  lookup_best : ∀ {store : List Secret} {path : Str} {s : Secret},
    m.lookupSecret store path "loki".toList = some s → s ∈ m.covering store path ∧
      ∀ t ∈ m.covering store path, m.matchScore t path ≤ m.matchScore s path
  lookup_none : ∀ {store : List Secret} {path : Str},
    m.lookupSecret store path "loki".toList = none → m.covering store path = []

variable {m : SecretManager} (hm : m.Lawful) {store store' : List Secret} {path : Str}

include hm

theorem find?_isDefaultMatch {best : Secret}
    (hbest : m.lookupSecret store path "loki".toList = some best) :
    store.find? (isDefaultMatch m path (m.matchScore best path)) =
      (m.covering store path).find? (isDefaultMatch m path (m.matchScore best path)) := by
  have hscore := (of_decide_eq_true (List.mem_filter.mp (hm.lookup_best hbest).1).2).2
  rw [SecretManager.covering, List.find?_filter]
  congr 1
  funext s
  have hcovers : isDefaultMatch m path (m.matchScore best path) s = true →
      m.covers path s = true := by
    intro h
    obtain ⟨htype, _, heq⟩ := of_decide_eq_true h
    apply decide_eq_true
    rw [heq]
    exact ⟨htype, hscore⟩
  cases h : isDefaultMatch m path (m.matchScore best path) s with
  | false => simp
  | true => simp [hcovers h]

/-- A secret that does not cover the endpoint is not looked at. -/
theorem lookupBestLokiSecret_congr
    (h : m.covering store path = m.covering store' path) :
    lookupBestLokiSecret m store path = lookupBestLokiSecret m store' path := by
  have hlookup := hm.lookup_congr h
  unfold lookupBestLokiSecret
  cases hbest : m.lookupSecret store path "loki".toList with
  | none =>
    rw [hbest] at hlookup
    rw [← hlookup]
  | some best =>
    rw [hbest] at hlookup
    rw [← hlookup]
    dsimp only
    rw [find?_isDefaultMatch hm hbest, find?_isDefaultMatch hm hlookup.symm, h]

def IsBestSecret (m : SecretManager) (store : List Secret) (path : Str) : Option Secret → Prop
  | none => m.covering store path = []
  | some s => s ∈ m.covering store path ∧
      (∀ t ∈ m.covering store path, m.matchScore t path ≤ m.matchScore s path) ∧
      ((∃ d ∈ m.covering store path, d.name = "__default_loki".toList ∧
        m.matchScore d path = m.matchScore s path) → s.name = "__default_loki".toList)

theorem lookupBestLokiSecret_best :
    IsBestSecret m store path (lookupBestLokiSecret m store path) := by
  unfold lookupBestLokiSecret
  cases hbest : m.lookupSecret store path "loki".toList with
  | none => exact hm.lookup_none hbest
  | some best =>
    obtain ⟨hmem, hmax⟩ := hm.lookup_best hbest
    dsimp only
    rw [find?_isDefaultMatch hm hbest]
    cases hfind : (m.covering store path).find?
        (isDefaultMatch m path (m.matchScore best path)) with
    | none =>
      refine ⟨hmem, hmax, ?_⟩
      intro ⟨d, hd, hname, hscore⟩
      have htype := (of_decide_eq_true (List.mem_filter.mp hd).2).1
      exact absurd (decide_eq_true ⟨htype, hname, hscore⟩) (List.find?_eq_none.mp hfind d hd)
    | some s =>
      have hdefault : isDefaultMatch m path (m.matchScore best path) s = true :=
        List.find?_some hfind
      obtain ⟨_, hname, hscore⟩ := of_decide_eq_true hdefault
      refine ⟨List.mem_of_find?_eq_some hfind, ?_, fun _ ↦ hname⟩
      intro t ht
      rw [hscore]
      exact hmax t ht

theorem readSecret_congr (h : m.covering store path = m.covering store' path) (fn : Str) :
    readSecret m store fn none path = readSecret m store' fn none path := by
  unfold readSecret
  rw [lookupBestLokiSecret_congr hm h]

/-- Secrets that do not cover the endpoint a call names have no influence on its
connection, if it names no secret; the secret it reads is the best one. -/
theorem resolve_ignores_uncovering (store store' : List Secret) (fn : Str) :
    (∀ params : ConnectionOptions, params.secret = none →
      m.covering store (params.endpoint.getD []) = m.covering store' (params.endpoint.getD []) →
        resolveLokiConnection m store params fn = resolveLokiConnection m store' params fn) ∧
    (∀ (path : Str) (options : ConnectionOptions), attachSecretName path options = [] →
      m.covering store ((attachEndpoint path options).getD []) =
          m.covering store' ((attachEndpoint path options).getD []) →
        resolveLokiConnectionFromOptions m store path options fn =
          resolveLokiConnectionFromOptions m store' path options fn) ∧
    ∀ path, ∃ found, readSecret m store fn none path = readFound fn found ∧
      IsBestSecret m store path found := by
  refine ⟨?_, ?_, fun path ↦ ⟨_, rfl, lookupBestLokiSecret_best hm⟩⟩
  · intro params hname hcovering
    unfold resolveLokiConnection
    rw [hname]
    dsimp only
    rw [readSecret_congr hm hcovering]
  · intro path options hname hcovering
    unfold resolveLokiConnectionFromOptions
    rw [hname]
    dsimp only
    rw [if_neg (not_not.mpr rfl), readSecret_congr hm hcovering]

end Scope

section Reference

/-- The longest prefix of the path in the scope; an empty scope matches any path
at the lowest score. -/
def scopeScore (secret : Secret) (path : Str) : ℤ :=
  if secret.scope = [] then 0
  else (secret.scope.filter (· <+: path)).foldl (fun score p ↦ max score p.length) int64Min

def SecretManager.reference : SecretManager where
  matchScore := scopeScore
  lookupSecret store path type := @List.argmax _ _ Int.instLinearOrder.toPreorder _
    (scopeScore · path) (store.filter (fun s ↦ s.type = type ∧ int64Min < scopeScore s path))
  getSecretByName store name := store.find? (·.name = name)

theorem SecretManager.reference_lawful : SecretManager.reference.Lawful where
  lookup_congr h := congrArg (List.argmax _) h
  lookup_best h := ⟨List.argmax_mem h, fun _ ht ↦ List.le_of_mem_argmax ht h⟩
  lookup_none h := List.argmax_eq_none.mp h

def defaultSecret : Secret :=
  ⟨"loki".toList, "__default_loki".toList, [], some { token := some "t".toList }⟩

def otherSecrets : List Secret :=
  [⟨"loki".toList, "other".toList, ["https://logs.example".toList],
      some { token := some "o".toList }⟩,
    ⟨"http".toList, "proxy".toList, [], some { token := some "p".toList }⟩]

theorem resolve_ignores_other :
    resolveLokiConnection .reference (defaultSecret :: otherSecrets)
        { endpoint := some "http://localhost:3100".toList } "loki_scan".toList =
      resolveLokiConnection .reference [defaultSecret]
        { endpoint := some "http://localhost:3100".toList } "loki_scan".toList ∧
    resolveLokiConnectionFromOptions .reference (defaultSecret :: otherSecrets)
        "loki:http://localhost:3100/".toList {} "ATTACH (TYPE loki)".toList =
      resolveLokiConnectionFromOptions .reference [defaultSecret]
        "loki:http://localhost:3100/".toList {} "ATTACH (TYPE loki)".toList := by
  constructor
  · apply (resolve_ignores_uncovering SecretManager.reference_lawful _ _ _).1
    · rfl
    · decide
  · apply (resolve_ignores_uncovering SecretManager.reference_lawful _ _ _).2.1
    · decide
    · decide

/-- The default secret is the one read, and its token is sent. -/
example : resolveLokiConnection .reference (defaultSecret :: otherSecrets)
    { endpoint := some "http://localhost:3100/".toList } "loki_scan".toList =
      .ok ("http://localhost:3100".toList, ⟨"t".toList, [], [], [], []⟩) := by
  decide

end Reference

end DuckdbLoki
