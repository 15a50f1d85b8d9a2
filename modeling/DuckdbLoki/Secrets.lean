import DuckdbLoki.Resolvers

namespace DuckdbLoki

section Create

/-- The values of a secret, or of the options it is created from, by their keys;
a value may be NULL. -/
structure SecretValues where
  endpoint : Option (Option Str) := none
  token : Option (Option Str) := none
  username : Option (Option Str) := none
  password : Option (Option Str) := none
  tenant : Option (Option Str) := none
  headers : Option (Option (List (List (Option Str)))) := none
deriving DecidableEq

structure CreateSecretInput where
  type : Str
  name : Str
  scope : List Str
  options : SecretValues
deriving DecidableEq

structure KeyValueSecret where
  type : Str
  name : Str
  scope : List Str
  secretMap : SecretValues
deriving DecidableEq

/-- An option that was given replaces the value, also where it is NULL. -/
def trySetValue {α : Type} (option value : Option α) : Option α := option.or value

def applyLokiSecretOptions (secretMap options : SecretValues) : SecretValues where
  endpoint := trySetValue options.endpoint secretMap.endpoint
  token := trySetValue options.token secretMap.token
  username := trySetValue options.username secretMap.username
  password := trySetValue options.password secretMap.password
  tenant := trySetValue options.tenant secretMap.tenant
  headers := trySetValue options.headers secretMap.headers

def createLokiSecretFromConfig (input : CreateSecretInput) : KeyValueSecret :=
  ⟨input.type, input.name, input.scope, applyLokiSecretOptions {} input.options⟩

def environmentValues (tryGetEnv : Str → Option Str) : SecretValues where
  endpoint := (tryGetEnv "LOKI_ADDR".toList).map some
  token := (tryGetEnv "LOKI_BEARER_TOKEN".toList).map some
  username := (tryGetEnv "LOKI_USERNAME".toList).map some
  password := (tryGetEnv "LOKI_PASSWORD".toList).map some
  tenant := (tryGetEnv "LOKI_ORG_ID".toList).map some

def createLokiSecretFromEnv (tryGetEnv : Str → Option Str) (input : CreateSecretInput) :
    KeyValueSecret :=
  ⟨input.type, input.name, input.scope,
    applyLokiSecretOptions (environmentValues tryGetEnv) input.options⟩

inductive SecretProvider
  | config
  | env
deriving DecidableEq

def SecretProvider.create (tryGetEnv : Str → Option Str) :
    SecretProvider → CreateSecretInput → KeyValueSecret
  | .config => createLokiSecretFromConfig
  | .env => createLokiSecretFromEnv tryGetEnv

def SecretValues.read (values : SecretValues) : ConnectionFields :=
  ⟨values.endpoint.join, values.token.join, values.username.join, values.password.join,
    values.tenant.join, values.headers.join⟩

def KeyValueSecret.stored (secret : KeyValueSecret) : Secret :=
  ⟨secret.type, secret.name, secret.scope, some secret.secretMap.read⟩

end Create

section Layers

def ConnectionFields.over (upper lower : ConnectionFields) : ConnectionFields where
  endpoint := upper.endpoint.or lower.endpoint
  token := upper.token.or lower.token
  username := upper.username.or lower.username
  password := upper.password.or lower.password
  tenant := upper.tenant.or lower.tenant
  headers := upper.headers.or lower.headers

theorem getD_or {α : Type} (o o' : Option α) (d : α) : (o.or o').getD d = o.getD (o'.getD d) := by
  cases o with
  | none => rfl
  | some a => rfl

def headerOf : List (Option Str) → Option (Str × Str)
  | [some k, some v] => some (k, v)
  | _ => none

theorem appendHeaders_eq {entries : List (List (Option Str))} (out : List (Str × Str))
    (h : ∀ k, [some k, none] ∉ entries) :
    appendHeaders entries out = .ok (out ++ entries.filterMap headerOf) := by
  induction entries, out using appendHeaders.induct with
  | case1 out => rw [appendHeaders, List.filterMap_nil, List.append_nil]
  | case2 k v entries out ih =>
    rw [appendHeaders, ih (fun k' hk ↦ h k' (List.mem_cons_of_mem _ hk)),
      List.append_assoc]
    rfl
  | case3 k entries out => exact absurd List.mem_cons_self (h k)
  | case4 entry entries out hpair hnull ih =>
    have hnone : headerOf entry = none := by
      unfold headerOf
      split
      · exact absurd rfl (hpair _ _)
      · rfl
    rw [appendHeaders, ih (fun k hk ↦ h k (List.mem_cons_of_mem _ hk)),
      List.filterMap_cons_none hnone]
    · exact hpair
    · exact hnull

def ConnectionFields.headerList (fields : ConnectionFields) : List (Str × Str) :=
  (fields.headers.getD []).filterMap headerOf

theorem appendHeadersFromMap_eq {fields : ConnectionFields} (h : HeadersComplete fields.headers) :
    appendHeadersFromMap fields.headers [] = .ok fields.headerList := by
  unfold appendHeadersFromMap ConnectionFields.headerList
  cases hmap : fields.headers with
  | none => rfl
  | some entries => exact appendHeaders_eq [] (h entries hmap)

/-- To draw on a secret is to write its values inline, under those that are. -/
theorem connect_secret {s : Secret} {kv : ConnectionFields} (htype : s.type = "loki".toList)
    (hfields : s.fields = some kv) (hcomplete : HeadersComplete kv.headers)
    (inline : ConnectionFields) : connect inline (some s) = connect (inline.over kv) none := by
  have hheaders := appendHeadersFromMap_eq hcomplete
  have hread : (readFound [] (some s)).toOption =
      some ⟨kv.endpoint.getD [], ⟨kv.token.getD [], kv.username.getD [], kv.password.getD [],
        kv.tenant.getD [], []⟩, kv.headerList⟩ := by
    unfold readFound
    dsimp only
    rw [toOption_bind, requireLokiSecret_toOption, if_neg (not_not.mpr htype), hfields,
      Option.bind_some]
    unfold readLokiSecret ConnectionState.initial
    rw [hheaders]
    rfl
  have hnone : (readFound [] none).toOption = some .initial := rfl
  have hlist : appendHeadersFromMap inline.headers
      (if inline.headers.isSome then [] else kv.headerList) =
        appendHeadersFromMap (inline.headers.or kv.headers)
          (if (inline.headers.or kv.headers).isSome then [] else []) := by
    rw [ite_self]
    cases inline.headers with
    | none => exact hheaders.symm
    | some entries => rfl
  unfold connect
  rw [hread, hnone, Option.bind_some, Option.bind_some]
  unfold applyOverrides ConnectionFields.over ConnectionState.initial
  dsimp only
  rw [hlist]
  simp only [getD_or]

structure ConnectionFields.Gives (fields : ConnectionFields) (endpoint : Str) (auth : AuthConfig) :
    Prop where
  named : fields.endpoint.getD [] ≠ []
  complete : HeadersComplete fields.headers
  endpoint_eq : endpoint = (fields.endpoint.getD []).rdropWhile (· = '/')
  auth_eq : auth = ⟨fields.token.getD [], fields.username.getD [], fields.password.getD [],
    fields.tenant.getD [], fields.headerList⟩

theorem connect_none {fields : ConnectionFields} {endpoint : Str} {auth : AuthConfig} :
    connect fields none = some (endpoint, auth) ↔ fields.Gives endpoint auth := by
  by_cases hconnects : Connects fields none
  · have hheaders := appendHeadersFromMap_eq hconnects.headers
    have hnamed : fields.endpoint.getD [] ≠ [] := hconnects.endpoint
    have hconnect : connect fields none = some ((fields.endpoint.getD []).rdropWhile (· = '/'),
        ⟨fields.token.getD [], fields.username.getD [], fields.password.getD [],
          fields.tenant.getD [], fields.headerList⟩) := by
      have hnone : (readFound [] none).toOption = some .initial := rfl
      unfold connect
      rw [hnone, Option.bind_some]
      unfold applyOverrides ConnectionState.initial
      dsimp only
      rw [ite_self, hheaders]
      change (finishConnection [] [] _).toOption = _
      unfold finishConnection
      rw [if_neg hnamed]
      rfl
    rw [hconnect, Option.some_inj, Prod.mk.injEq]
    constructor
    · exact fun ⟨hendpoint, hauth⟩ ↦
        ⟨hnamed, hconnects.headers, hendpoint.symm, hauth.symm⟩
    · exact fun h ↦ ⟨h.endpoint_eq.symm, h.auth_eq.symm⟩
  · apply iff_of_false
    · intro h
      exact hconnects (connect_isSome_iff.mp (Option.isSome_of_eq_some h))
    · exact fun h ↦ hconnects ⟨nofun, h.complete, h.named⟩

/-- A connection that draws on a created secret: every value is the inline one,
or else the secret's. -/
theorem connect_stored {secret : KeyValueSecret} (htype : secret.type = "loki".toList)
    {inline : ConnectionFields} {endpoint : Str} {auth : AuthConfig} :
    connect inline (some secret.stored) = some (endpoint, auth) ↔
      HeadersComplete secret.secretMap.read.headers ∧
        (inline.over secret.secretMap.read).Gives endpoint auth := by
  by_cases hcomplete : HeadersComplete secret.secretMap.read.headers
  · rw [connect_secret htype rfl hcomplete, connect_none, and_iff_right hcomplete]
  · apply iff_of_false _ (fun h ↦ hcomplete h.1)
    intro h
    obtain ⟨hsecret, _⟩ := connect_isSome_iff.mp (Option.isSome_of_eq_some h)
    obtain ⟨_, kv, hkv, hheaders⟩ := hsecret _ rfl
    exact hcomplete (Option.some.inj hkv ▸ hheaders)

end Layers

section Connections

variable {m : SecretManager} {store : List Secret}

def attachedName (path : Str) (options : ConnectionOptions) : Option Str :=
  if attachSecretName path options ≠ [] then some (attachSecretName path options) else none

/-- The inline values of an `ATTACH`; a path that is a URL counts as an endpoint. -/
def attachFields (path : Str) (options : ConnectionOptions) : ConnectionFields :=
  { options.toConnectionFields with endpoint := attachEndpoint path options }

theorem resolveAttach_toOption (path : Str) (options : ConnectionOptions) (fn : Str) :
    (resolveLokiConnectionFromOptions m store path options fn).toOption =
      (drawnSecret m store (attachedName path options)
        ((attachEndpoint path options).getD [])).bind (connect (attachFields path options)) := by
  unfold resolveLokiConnectionFromOptions connect
  dsimp only
  rw [toOption_bind, readSecret_toOption, Option.bind_assoc]
  simp only [toOption_bind, finishConnection_toOption]
  rfl

/-- Two layers of values; a NULL of the upper one hides the lower. -/
def SecretValues.over (upper lower : SecretValues) : SecretValues where
  endpoint := upper.endpoint.or lower.endpoint
  token := upper.token.or lower.token
  username := upper.username.or lower.username
  password := upper.password.or lower.password
  tenant := upper.tenant.or lower.tenant
  headers := upper.headers.or lower.headers

def SecretProvider.environment (tryGetEnv : Str → Option Str) : SecretProvider → SecretValues
  | .config => {}
  | .env => environmentValues tryGetEnv

theorem create_eq (tryGetEnv : Str → Option Str) (provider : SecretProvider)
    (input : CreateSecretInput) : provider.create tryGetEnv input =
      ⟨input.type, input.name, input.scope,
        input.options.over (provider.environment tryGetEnv)⟩ := by
  cases provider with
  | config => rfl
  | env => rfl

/-- A call, or an `ATTACH`, that draws on a created secret connects with its own
values, under them the options of the secret, and under these the environment
where the provider reads it. -/
theorem connections_layered (tryGetEnv : Str → Option Str) (provider : SecretProvider)
    {input : CreateSecretInput} (htype : input.type = "loki".toList) (endpoint : Str)
    (auth : AuthConfig) :
    let found := some (some (provider.create tryGetEnv input).stored)
    let given := (input.options.over (provider.environment tryGetEnv)).read
    (∀ (params : ConnectionOptions) (fn : Str),
      drawnSecret m store params.secret (params.endpoint.getD []) = found →
        (resolveLokiConnection m store params fn = .ok (endpoint, auth) ↔
          HeadersComplete given.headers ∧
            (params.toConnectionFields.over given).Gives endpoint auth)) ∧
    ∀ (path : Str) (options : ConnectionOptions) (fn : Str),
      drawnSecret m store (attachedName path options)
          ((attachEndpoint path options).getD []) = found →
        (resolveLokiConnectionFromOptions m store path options fn = .ok (endpoint, auth) ↔
          HeadersComplete given.headers ∧
            ((attachFields path options).over given).Gives endpoint auth) := by
  intro found given
  have hstored : ∀ inline : ConnectionFields,
      connect inline (some (provider.create tryGetEnv input).stored) = some (endpoint, auth) ↔
        HeadersComplete given.headers ∧ (inline.over given).Gives endpoint auth := by
    intro inline
    rw [create_eq]
    exact connect_stored htype
  refine ⟨?_, ?_⟩
  · intro params fn hdrawn
    rw [← toOption_eq_some, resolve_toOption, hdrawn]
    exact hstored _
  · intro path options fn hdrawn
    rw [← toOption_eq_some, resolveAttach_toOption, hdrawn]
    exact hstored _

end Connections

section Samples

def sampleEnv (name : Str) : Option Str :=
  if name = "LOKI_ADDR".toList then some "http://loki:3100/".toList
  else if name = "LOKI_ORG_ID".toList then some "acme".toList
  else if name = "LOKI_BEARER_TOKEN".toList then some "t".toList
  else none

def prodInput : CreateSecretInput :=
  { type := "loki".toList, name := "prod".toList, scope := [], options := { token := some none } }

def prodSecret : Secret := (SecretProvider.env.create sampleEnv prodInput).stored

theorem connections_layered_prod :
    resolveLokiConnection .reference [prodSecret]
        { tenant := some "umbrella".toList, secret := some "prod".toList } "loki".toList =
      .ok ("http://loki:3100".toList, ⟨[], [], [], "umbrella".toList, []⟩) ∧
    resolveLokiConnectionFromOptions .reference [prodSecret] "prod".toList {}
        "ATTACH (TYPE loki)".toList =
      .ok ("http://loki:3100".toList, ⟨[], [], [], "acme".toList, []⟩) := by
  have hdrawn : drawnSecret .reference [prodSecret] (some "prod".toList) [] =
      some (some prodSecret) := by decide
  have htype : prodInput.type = "loki".toList := rfl
  refine ⟨?_, ?_⟩
  · exact ((connections_layered sampleEnv .env htype _ _).1 _ _ hdrawn).mpr
      ⟨nofun, by decide, nofun, by decide, rfl⟩
  · exact ((connections_layered sampleEnv .env htype _ _).2 "prod".toList {} _ hdrawn).mpr
      ⟨nofun, by decide, nofun, by decide, rfl⟩

end Samples

end DuckdbLoki
