import DuckdbLoki.Connection

namespace DuckdbLoki

/-- The secret that a call draws on; there is no result where the secret it
names does not exist. -/
def drawnSecret (m : SecretManager) (store : List Secret) (name : Option Str) (path : Str) :
    Option (Option Secret) :=
  match name with
  | some name => (m.getSecretByName store name).map some
  | none => some (lookupBestLokiSecret m store path)

def ConnectionOptions.attachName (options : ConnectionOptions) : Option Str :=
  if options.secret.getD [] ≠ [] then some (options.secret.getD []) else none

/-- Both resolvers fail, or both end up with the same connection, drawn from the
same secret. -/
def ResolversAgree (m : SecretManager) (store : List Secret) (options : ConnectionOptions)
    (fn attachFn : Str) : Prop :=
  ((∃ message, resolveLokiConnection m store options fn = .error message) ∧
    ∃ message, resolveLokiConnectionFromOptions m store [] options attachFn = .error message) ∨
  ∃ connection, resolveLokiConnection m store options fn = .ok connection ∧
    resolveLokiConnectionFromOptions m store [] options attachFn = .ok connection ∧
    drawnSecret m store options.secret (options.endpoint.getD []) =
      drawnSecret m store options.attachName (options.endpoint.getD [])

def HeadersComplete (headers : Option (List (List (Option Str)))) : Prop :=
  ∀ entries ∈ headers, ∀ k, [some k, none] ∉ entries

structure Connects (inline : ConnectionFields) (found : Option Secret) : Prop where
  secret : ∀ s ∈ found, s.type = "loki".toList ∧ ∃ kv, s.fields = some kv ∧
    HeadersComplete kv.headers
  headers : HeadersComplete inline.headers
  endpoint : inline.endpoint.getD
    (((found.bind Secret.fields).bind ConnectionFields.endpoint).getD []) ≠ []

section Connect

def connect (inline : ConnectionFields) (found : Option Secret) : Option (Str × AuthConfig) :=
  (readFound [] found).toOption.bind (fun st ↦
    (applyOverrides inline.endpoint inline st).toOption.bind (fun st ↦
      (finishConnection [] [] st).toOption))

theorem toOption_bind {ε α β : Type} (x : Except ε α) (f : α → Except ε β) :
    (x.bind f).toOption = x.toOption.bind (fun a ↦ (f a).toOption) := by
  cases x with
  | error e => rfl
  | ok a => rfl

theorem requireLokiSecret_toOption (fn : Str) (s : Secret) (name : Str) :
    (requireLokiSecret fn s name).toOption =
      if s.type ≠ "loki".toList then none else s.fields := by
  unfold requireLokiSecret
  split_ifs
  · rfl
  · cases s.fields with
    | none => rfl
    | some kv => rfl

theorem finishConnection_toOption (fn required : Str) (st : ConnectionState) :
    (finishConnection fn required st).toOption = (finishConnection [] [] st).toOption := by
  unfold finishConnection
  split_ifs
  · rfl
  · rfl

variable {m : SecretManager} {store : List Secret}

theorem readSecret_toOption (fn : Str) (name : Option Str) (path : Str) :
    (readSecret m store fn name path).toOption =
      (drawnSecret m store name path).bind (fun found ↦ (readFound [] found).toOption) := by
  have hfound : ∀ (s : Secret) (name name' : Str),
      ((requireLokiSecret fn s name).bind (readLokiSecret · .initial)).toOption =
        ((requireLokiSecret [] s name').bind (readLokiSecret · .initial)).toOption := by
    intro s name name'
    rw [toOption_bind, toOption_bind, requireLokiSecret_toOption, requireLokiSecret_toOption]
  unfold readSecret drawnSecret
  cases name with
  | some name =>
    dsimp only
    cases m.getSecretByName store name with
    | none => rfl
    | some s => exact hfound s name s.name
  | none =>
    dsimp only
    rw [Option.bind_some]
    cases lookupBestLokiSecret m store path with
    | none => rfl
    | some s => exact hfound s s.name s.name

variable (m) (store)

theorem resolve_toOption (options : ConnectionOptions) (fn : Str) :
    (resolveLokiConnection m store options fn).toOption =
      (drawnSecret m store options.secret (options.endpoint.getD [])).bind
        (connect options.toConnectionFields) := by
  unfold resolveLokiConnection connect
  dsimp only
  rw [toOption_bind, readSecret_toOption, Option.bind_assoc]
  simp only [toOption_bind, finishConnection_toOption]

theorem attachSecretName_nil (options : ConnectionOptions) :
    attachSecretName [] options = options.secret.getD [] := by
  unfold attachSecretName
  cases options.secret with
  | none => rfl
  | some name => rfl

theorem attachEndpoint_nil (options : ConnectionOptions) :
    attachEndpoint [] options = options.endpoint := by
  unfold attachEndpoint
  cases options.endpoint with
  | none => rfl
  | some endpoint => rfl

theorem resolveFromOptions_toOption (options : ConnectionOptions) (fn : Str) :
    (resolveLokiConnectionFromOptions m store [] options fn).toOption =
      (drawnSecret m store options.attachName (options.endpoint.getD [])).bind
        (connect options.toConnectionFields) := by
  unfold resolveLokiConnectionFromOptions connect
  rw [attachSecretName_nil, attachEndpoint_nil]
  dsimp only
  rw [toOption_bind, readSecret_toOption, Option.bind_assoc]
  simp only [toOption_bind, finishConnection_toOption]
  rfl

end Connect

section Success

theorem appendHeaders_isSome {entries : List (List (Option Str))} {out : List (Str × Str)} :
    (appendHeaders entries out).toOption.isSome = true ↔ ∀ k, [some k, none] ∉ entries := by
  induction entries, out using appendHeaders.induct with
  | case1 out => exact iff_of_true rfl (fun _ ↦ List.not_mem_nil)
  | case2 k v entries out ih =>
    unfold appendHeaders
    rw [ih]
    simp
  | case3 k rest out =>
    apply iff_of_false
    · exact Bool.false_ne_true
    · intro h
      exact h k List.mem_cons_self
  | case4 head entries out hpair hnull ih =>
    rw [appendHeaders, ih]
    · constructor
      · intro h k hmem
        rcases List.mem_cons.mp hmem with hk | hk
        · exact hnull k hk.symm
        · exact h k hk
      · intro h k hmem
        exact h k (List.mem_cons_of_mem _ hmem)
    · exact hpair
    · exact hnull

theorem appendHeadersFromMap_isSome {map : Option (List (List (Option Str)))}
    (out : List (Str × Str)) :
    (appendHeadersFromMap map out).toOption.isSome = true ↔ HeadersComplete map := by
  unfold appendHeadersFromMap HeadersComplete
  cases map with
  | none => exact iff_of_true rfl nofun
  | some entries =>
    dsimp only
    rw [appendHeaders_isSome]
    constructor
    · intro h entries' hmem
      exact Option.some.inj hmem ▸ h
    · exact fun h ↦ h entries rfl

theorem readLokiSecret_some {kv : ConnectionFields} {st st' : ConnectionState}
    (h : (readLokiSecret kv st).toOption = some st') :
    HeadersComplete kv.headers ∧ st'.endpoint = kv.endpoint.getD st.endpoint := by
  rw [← appendHeadersFromMap_isSome st.headers]
  unfold readLokiSecret at h
  cases hheaders : appendHeadersFromMap kv.headers st.headers with
  | error message =>
    rw [hheaders] at h
    cases h
  | ok headers =>
    rw [hheaders] at h
    rw [← Option.some.inj h]
    exact ⟨rfl, rfl⟩

theorem readFound_some {found : Option Secret} {st : ConnectionState}
    (h : (readFound [] found).toOption = some st) :
    (∀ s ∈ found, s.type = "loki".toList ∧ ∃ kv, s.fields = some kv ∧
      HeadersComplete kv.headers) ∧
    st.endpoint = ((found.bind Secret.fields).bind ConnectionFields.endpoint).getD [] := by
  cases found with
  | none =>
    obtain rfl := Option.some.inj h
    exact ⟨nofun, rfl⟩
  | some s =>
    unfold readFound at h
    dsimp only at h
    rw [toOption_bind, requireLokiSecret_toOption] at h
    split_ifs at h with htype
    · cases h
    · obtain ⟨kv, hkv, h⟩ := Option.bind_eq_some_iff.mp h
      obtain ⟨hcomplete, hendpoint⟩ := readLokiSecret_some h
      refine ⟨?_, ?_⟩
      · intro t ht
        rw [← Option.some.inj ht]
        exact ⟨not_not.mp htype, kv, hkv, hcomplete⟩
      · rw [hendpoint, Option.bind_some, hkv]
        rfl

theorem readFound_isSome {found : Option Secret}
    (h : ∀ s ∈ found, s.type = "loki".toList ∧ ∃ kv, s.fields = some kv ∧
      HeadersComplete kv.headers) :
    (readFound [] found).toOption.isSome = true := by
  cases found with
  | none => rfl
  | some s =>
    obtain ⟨htype, kv, hkv, hcomplete⟩ := h s rfl
    unfold readFound
    dsimp only
    rw [toOption_bind, requireLokiSecret_toOption, if_neg (not_not.mpr htype), hkv,
      Option.bind_some]
    have hsome := (appendHeadersFromMap_isSome ConnectionState.initial.headers).mpr hcomplete
    unfold readLokiSecret
    cases hheaders : appendHeadersFromMap kv.headers ConnectionState.initial.headers with
    | error message =>
      rw [hheaders] at hsome
      cases hsome
    | ok headers => rfl

/-- Of the state before, only the endpoint decides whether the rest succeeds. -/
theorem finish_isSome (inline : ConnectionFields) (st : ConnectionState) :
    ((applyOverrides inline.endpoint inline st).toOption.bind (fun st ↦
      (finishConnection [] [] st).toOption)).isSome = true ↔
    HeadersComplete inline.headers ∧ inline.endpoint.getD st.endpoint ≠ [] := by
  rw [← appendHeadersFromMap_isSome (if inline.headers.isSome then [] else st.headers)]
  unfold applyOverrides
  cases appendHeadersFromMap inline.headers
      (if inline.headers.isSome then [] else st.headers) with
  | error message => exact iff_of_false Bool.false_ne_true (fun h ↦ Bool.false_ne_true h.1)
  | ok headers =>
    have hok : (Except.ok headers : Except Str _).toOption.isSome = true := rfl
    rw [and_iff_right hok]
    change (finishConnection [] [] _).toOption.isSome = true ↔ _
    unfold finishConnection
    split_ifs with hempty
    · exact iff_of_false Bool.false_ne_true (not_not.mpr hempty)
    · exact iff_of_true rfl hempty

theorem connect_isSome_iff {inline : ConnectionFields} {found : Option Secret} :
    (connect inline found).isSome = true ↔ Connects inline found := by
  unfold connect
  constructor
  · intro h
    cases hread : (readFound [] found).toOption with
    | none =>
      rw [hread] at h
      cases h
    | some st =>
      rw [hread, Option.bind_some, finish_isSome] at h
      obtain ⟨hsecret, hendpoint⟩ := readFound_some hread
      rw [hendpoint] at h
      exact ⟨hsecret, h.1, h.2⟩
  · intro h
    obtain ⟨st, hread⟩ := Option.isSome_iff_exists.mp (readFound_isSome h.secret)
    rw [hread, Option.bind_some, finish_isSome, (readFound_some hread).2]
    exact ⟨h.headers, h.endpoint⟩

end Success

section Agreement

variable {m : SecretManager} {store : List Secret} {options : ConnectionOptions}
  {fn attachFn : Str}

theorem toOption_eq_none {ε α : Type} {x : Except ε α} :
    x.toOption = none ↔ ∃ e, x = .error e := by
  cases x with
  | error e => exact iff_of_true rfl ⟨e, rfl⟩
  | ok a => exact iff_of_false nofun (fun ⟨_, h⟩ ↦ nomatch h)

theorem toOption_eq_some {ε α : Type} {x : Except ε α} {a : α} :
    x.toOption = some a ↔ x = .ok a := by
  cases x with
  | error e => exact iff_of_false nofun nofun
  | ok b => exact ⟨fun h ↦ congrArg Except.ok (Option.some.inj h), fun h ↦ congrArg some
      (Except.ok.inj h)⟩

theorem resolversAgree_iff_drawn {named attached : Option (Option Secret)}
    (hnamed : drawnSecret m store options.secret (options.endpoint.getD []) = named)
    (hattached : drawnSecret m store options.attachName (options.endpoint.getD []) = attached) :
    ResolversAgree m store options fn attachFn ↔
      (named.bind (connect options.toConnectionFields) = none ∧
        attached.bind (connect options.toConnectionFields) = none) ∨ named = attached := by
  have h₁ := resolve_toOption m store options fn
  have h₂ := resolveFromOptions_toOption m store options attachFn
  rw [hnamed] at h₁
  rw [hattached] at h₂
  unfold ResolversAgree
  rw [← toOption_eq_none, ← toOption_eq_none, h₁, h₂, hnamed, hattached]
  simp only [← toOption_eq_some, h₁, h₂]
  constructor
  · intro h
    rcases h with h | ⟨_, _, _, h⟩
    · exact Or.inl h
    · exact Or.inr h
  · intro h
    rcases h with h | h
    · exact Or.inl h
    · rw [h]
      cases hconnect : attached.bind (connect options.toConnectionFields) with
      | none => exact Or.inl ⟨rfl, rfl⟩
      | some connection => exact Or.inr ⟨connection, rfl, rfl, rfl⟩

/-- The resolvers agree unless the name of the secret is given and empty. Then
they agree when neither connects, or when the secret of that name is also the
best match. -/
theorem resolversAgree_iff (m : SecretManager) (store : List Secret)
    (options : ConnectionOptions) (fn attachFn : Str) :
    ResolversAgree m store options fn attachFn ↔
      (options.secret = some [] →
        ((∀ s, m.getSecretByName store [] = some s →
            ¬ Connects options.toConnectionFields (some s)) ∧
          ¬ Connects options.toConnectionFields
            (lookupBestLokiSecret m store (options.endpoint.getD []))) ∨
        ∃ s, m.getSecretByName store [] = some s ∧
          lookupBestLokiSecret m store (options.endpoint.getD []) = some s) := by
  by_cases hempty : options.secret = some []
  · have hname : options.attachName = none := by
      unfold ConnectionOptions.attachName
      rw [hempty]
      rfl
    have hnone : ∀ found, connect options.toConnectionFields found = none ↔
        ¬ Connects options.toConnectionFields found := by
      intro found
      rw [← connect_isSome_iff, Bool.not_eq_true, Option.isSome_eq_false_iff,
        Option.isNone_iff_eq_none]
    rw [resolversAgree_iff_drawn rfl rfl, hempty, hname, forall_prop_of_true rfl]
    unfold drawnSecret
    dsimp only
    rw [Option.bind_some, hnone]
    cases m.getSecretByName store [] with
    | none => simp
    | some s =>
      rw [Option.map_some, Option.bind_some, hnone]
      simp [eq_comm]
  · have hname : options.attachName = options.secret := by
      unfold ConnectionOptions.attachName
      cases hsecret : options.secret with
      | none => rfl
      | some name =>
        rw [hsecret] at hempty
        exact if_pos (fun h ↦ hempty (congrArg some h))
    rw [resolversAgree_iff_drawn rfl rfl, hname]
    exact iff_of_true (Or.inr rfl) (fun h ↦ absurd h hempty)

/-- An empty secret name is an error in a call, and stands for the default
secret in an `ATTACH`. -/
theorem resolvers_disagree :
    resolveLokiConnection .reference [defaultSecret]
        { endpoint := some "http://localhost:3100".toList, secret := some [] }
        "loki_scan".toList = .error "loki_scan: no secret named '' found".toList ∧
      resolveLokiConnectionFromOptions .reference [defaultSecret] []
        { endpoint := some "http://localhost:3100".toList, secret := some [] }
        "ATTACH (TYPE loki)".toList =
          .ok ("http://localhost:3100".toList, ⟨"t".toList, [], [], [], []⟩) := by
  decide

end Agreement

end DuckdbLoki
