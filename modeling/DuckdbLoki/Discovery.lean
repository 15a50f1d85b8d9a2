import DuckdbLoki.Catalog
import DuckdbLoki.TimeBounds

namespace DuckdbLoki

section Bind

inductive DiscoveryKind
  | labels
  | labelValues
  | series
deriving DecidableEq

/-- The arguments of a call; one that is omitted or NULL is `none`. -/
structure DiscoveryInput where
  connection : ConnectionOptions := {}
  argument : Option Str := none
  startBound : Option TimeArgument := none
  endBound : Option TimeArgument := none
  query : Option Str := none

def resolveDiscoveryBounds (input : DiscoveryInput) (nowNs : ℤ) : ExceptT Str Option (ℤ × ℤ) := do
  let startNs ← input.startBound.elim (pure (-1)) (resolveTimeBound nowNs)
  let endNs ← input.endBound.elim (pure (-1)) (resolveTimeBound nowNs)
  return (startNs, endNs)

variable (m : SecretManager) (store : List Secret) (input : DiscoveryInput) (nowNs : ℤ)

def lokiLabelsBind : ExceptT Str Option (LokiDiscoveryBindData × List ColumnDefinition) := do
  let (endpoint, auth) ← ExceptT.mk (some (resolveLokiConnection m store input.connection
    "loki_labels".toList))
  let (startNs, endNs) ← resolveDiscoveryBounds input nowNs
  return (⟨endpoint, auth, buildLabelsRequest startNs endNs⟩, [labelColumn "label".toList])

def lokiLabelValuesBind : ExceptT Str Option (LokiDiscoveryBindData × List ColumnDefinition) := do
  let (endpoint, auth) ← ExceptT.mk (some (resolveLokiConnection m store input.connection
    "loki_label_values".toList))
  let label ← input.argument.elim
    (throw "loki_label_values requires a label name as its first argument".toList) pure
  let (startNs, endNs) ← resolveDiscoveryBounds input nowNs
  return (⟨endpoint, auth, buildLabelValuesRequest label startNs endNs (input.query.getD [])⟩,
    [labelColumn "value".toList])

def lokiSeriesBind : ExceptT Str Option (LokiDiscoveryBindData × List ColumnDefinition) := do
  let (endpoint, auth) ← ExceptT.mk (some (resolveLokiConnection m store input.connection
    "loki_series".toList))
  let selector ← input.argument.elim
    (throw ("loki_series requires a stream selector as its first argument, e.g. " ++
      "loki_series('\x7bjob=\"api\"\x7d')").toList) pure
  let (startNs, endNs) ← resolveDiscoveryBounds input nowNs
  return (⟨endpoint, auth, buildSeriesRequest selector startNs endNs⟩,
    [⟨"labels".toList, .stringMap⟩])

def discoveryBind (kind : DiscoveryKind) :
    ExceptT Str Option (LokiDiscoveryBindData × List ColumnDefinition) :=
  match kind with
  | .labels => lokiLabelsBind m store input nowNs
  | .labelValues => lokiLabelValuesBind m store input nowNs
  | .series => lokiSeriesBind m store input nowNs

end Bind

section Bounds

def sentValues (name : Str) (request : QueryRangeRequest) : List Str :=
  (request.params.filter (·.1 = name)).map Prod.snd

/-- A bound is sent once, as it was resolved, where it was given, and else not
at all. -/
def Conveys (name : Str) (request : QueryRangeRequest) (bound : Option ℤ) : Prop :=
  sentValues name request = (bound.map toDecimal).toList

def ResolvesTo (nowNs : ℤ) : Option TimeArgument → Option ℤ → Prop :=
  Option.Rel (fun value ns ↦ (resolveTimeBound nowNs value).run = some (.ok ns))

def encodedBound (bound : Option ℤ) : ℤ := bound.getD (-1)

variable {nowNs startNs endNs : ℤ} {bound : Option ℤ}

def boundValues (ns : ℤ) : List Str := if 0 ≤ ns then [toDecimal ns] else []

theorem boundValues_encodedBound_iff :
    boundValues (encodedBound bound) = (bound.map toDecimal).toList ↔ ∀ ns ∈ bound, 0 ≤ ns := by
  cases bound with
  | none => exact iff_of_true rfl nofun
  | some ns =>
    have hall : (∀ n ∈ some ns, 0 ≤ n) ↔ 0 ≤ ns := by simp
    rw [hall]
    unfold boundValues
    split_ifs with hns
    · exact iff_of_true rfl hns
    · exact iff_of_false nofun hns

theorem exists_bound {value : Option TimeArgument} {ns : ℤ}
    (h : (value.elim (pure (-1)) (resolveTimeBound nowNs) : ExceptT Str Option ℤ).run =
      some (.ok ns)) : ∃ bound, ResolvesTo nowNs value bound ∧ ns = encodedBound bound := by
  cases value with
  | none => exact ⟨none, .none, (Except.ok.inj (Option.some.inj h)).symm⟩
  | some value => exact ⟨some ns, .some h, rfl⟩

theorem exists_bounds {input : DiscoveryInput}
    (h : (resolveDiscoveryBounds input nowNs).run = some (.ok (startNs, endNs))) :
    ∃ start stop, ResolvesTo nowNs input.startBound start ∧ ResolvesTo nowNs input.endBound stop ∧
      startNs = encodedBound start ∧ endNs = encodedBound stop := by
  obtain ⟨s, hs, h⟩ := bind_eq_ok h
  obtain ⟨e, he, h⟩ := bind_eq_ok h
  obtain ⟨start, hstart, hs⟩ := exists_bound hs
  obtain ⟨stop, hstop, he⟩ := exists_bound he
  obtain ⟨hstartNs, hendNs⟩ := Prod.mk.inj (Except.ok.inj (Option.some.inj h))
  exact ⟨start, stop, hstart, hstop, hstartNs ▸ hs, hendNs ▸ he⟩

structure Bounded (startNs endNs : ℤ) (request : QueryRangeRequest) : Prop where
  start : sentValues "start".toList request = boundValues startNs
  stop : sentValues "end".toList request = boundValues endNs

theorem sentValues_append (name path : Str) (xs ys : List (Str × Str)) :
    sentValues name ⟨path, xs ++ ys⟩ =
      sentValues name ⟨path, xs⟩ ++ sentValues name ⟨path, ys⟩ := by
  simp [sentValues]

theorem bounded_appendTimeBounds {request : QueryRangeRequest}
    (hstart : sentValues "start".toList request = [])
    (hstop : sentValues "end".toList request = []) :
    Bounded startNs endNs (appendTimeBounds request startNs endNs) := by
  unfold appendTimeBounds
  constructor
  · rw [sentValues_append, sentValues_append, hstart]
    unfold boundValues
    split_ifs <;> rfl
  · rw [sentValues_append, sentValues_append, hstop]
    unfold boundValues
    split_ifs <;> rfl

theorem bounded_buildLabelsRequest : Bounded startNs endNs (buildLabelsRequest startNs endNs) :=
  bounded_appendTimeBounds rfl rfl

theorem bounded_buildSeriesRequest (selector : Str) :
    Bounded startNs endNs (buildSeriesRequest selector startNs endNs) :=
  bounded_appendTimeBounds rfl rfl

theorem bounded_buildLabelValuesRequest (name query : Str) :
    Bounded startNs endNs (buildLabelValuesRequest name startNs endNs query) := by
  have hbounds : Bounded startNs endNs (appendTimeBounds
      ⟨"/loki/api/v1/label/".toList ++ urlEncode name ++ "/values".toList, []⟩ startNs endNs) :=
    bounded_appendTimeBounds rfl rfl
  unfold buildLabelValuesRequest
  dsimp only
  split_ifs
  · exact hbounds
  · constructor
    · rw [sentValues_append, hbounds.start]
      exact List.append_nil _
    · rw [sentValues_append, hbounds.stop]
      exact List.append_nil _

end Bounds

section Conveyed

variable {m : SecretManager} {store : List Secret} {input : DiscoveryInput} {nowNs : ℤ}
  {data : LokiDiscoveryBindData} {columns : List ColumnDefinition}

theorem discoveryBind_bounded {kind : DiscoveryKind}
    (h : (discoveryBind m store input nowNs kind).run = some (.ok (data, columns))) :
    ∃ startNs endNs, (resolveDiscoveryBounds input nowNs).run = some (.ok (startNs, endNs)) ∧
      Bounded startNs endNs data.request := by
  cases kind with
  | labels =>
    obtain ⟨_, _, h⟩ := bind_eq_ok h
    obtain ⟨⟨startNs, endNs⟩, hbounds, h⟩ := bind_eq_ok h
    obtain ⟨hdata, _⟩ := Prod.mk.inj (Except.ok.inj (Option.some.inj h))
    exact ⟨startNs, endNs, hbounds, hdata ▸ bounded_buildLabelsRequest⟩
  | labelValues =>
    obtain ⟨_, _, h⟩ := bind_eq_ok h
    obtain ⟨label, _, h⟩ := bind_eq_ok h
    obtain ⟨⟨startNs, endNs⟩, hbounds, h⟩ := bind_eq_ok h
    obtain ⟨hdata, _⟩ := Prod.mk.inj (Except.ok.inj (Option.some.inj h))
    exact ⟨startNs, endNs, hbounds, hdata ▸ bounded_buildLabelValuesRequest label _⟩
  | series =>
    obtain ⟨_, _, h⟩ := bind_eq_ok h
    obtain ⟨selector, _, h⟩ := bind_eq_ok h
    obtain ⟨⟨startNs, endNs⟩, hbounds, h⟩ := bind_eq_ok h
    obtain ⟨hdata, _⟩ := Prod.mk.inj (Except.ok.inj (Option.some.inj h))
    exact ⟨startNs, endNs, hbounds, hdata ▸ bounded_buildSeriesRequest selector⟩

/-- A bound that is given reaches the server where it is not before the epoch. -/
theorem discoveryBind_conveys_iff (kind : DiscoveryKind)
    (h : (discoveryBind m store input nowNs kind).run = some (.ok (data, columns))) :
    ∃ start stop, ResolvesTo nowNs input.startBound start ∧ ResolvesTo nowNs input.endBound stop ∧
      (Conveys "start".toList data.request start ↔ ∀ ns ∈ start, 0 ≤ ns) ∧
      (Conveys "end".toList data.request stop ↔ ∀ ns ∈ stop, 0 ≤ ns) := by
  obtain ⟨startNs, endNs, hbounds, hbounded⟩ := discoveryBind_bounded h
  obtain ⟨start, stop, hstart, hstop, hs, he⟩ := exists_bounds hbounds
  refine ⟨start, stop, hstart, hstop, ?_, ?_⟩
  · unfold Conveys
    rw [hbounded.start, hs]
    exact boundValues_encodedBound_iff
  · unfold Conveys
    rw [hbounded.stop, he]
    exact boundValues_encodedBound_iff

def seriesInput : DiscoveryInput where
  connection := { endpoint := some "http://localhost:3100/".toList }
  argument := some "\x7bjob=\"api\"\x7d".toList
  startBound := some (.interval 0 0 (-3600000000))

theorem lokiSeriesBind_conveys : ∃ data columns,
    (lokiSeriesBind .reference [] seriesInput 1700000000000000000).run =
      some (.ok (data, columns)) ∧
    Conveys "start".toList data.request (some 1699996400000000000) ∧
    Conveys "end".toList data.request none := by
  have hbind : (lokiSeriesBind .reference [] seriesInput 1700000000000000000).run =
      some (.ok (⟨"http://localhost:3100".toList, ⟨[], [], [], [], []⟩,
        buildSeriesRequest "\x7bjob=\"api\"\x7d".toList 1699996400000000000 (-1)⟩,
        [⟨"labels".toList, .stringMap⟩])) := by
    rfl
  have hhour : (resolveTimeBound 1700000000000000000 (.interval 0 0 (-3600000000))).run =
      some (.ok 1699996400000000000) := by
    rfl
  refine ⟨_, _, hbind, ?_⟩
  obtain ⟨start, stop, hstart, hstop, hconveys, hconveys'⟩ :=
    discoveryBind_conveys_iff .series hbind
  cases hstop with
  | none =>
    cases hstart with
    | some h =>
      rw [hhour] at h
      rw [← Except.ok.inj (Option.some.inj h)] at hconveys
      exact ⟨hconveys.mpr (by decide), hconveys'.mpr nofun⟩

def earlyInput : DiscoveryInput where
  connection := { endpoint := some "http://localhost:3100".toList }
  startBound := some (.other (.ok (some (-315619200000000), "1960-01-01 00:00:00".toList)))

theorem lokiLabelsBind_drops_start :
    (lokiLabelsBind .reference [] earlyInput 1700000000000000000).run =
      some (.ok (⟨"http://localhost:3100".toList, ⟨[], [], [], [], []⟩,
        ⟨"/loki/api/v1/labels".toList, []⟩⟩, [labelColumn "label".toList])) ∧
    ResolvesTo 1700000000000000000 earlyInput.startBound (some (-315619200000000000)) ∧
    ¬ Conveys "start".toList ⟨"/loki/api/v1/labels".toList, []⟩ (some (-315619200000000000)) := by
  refine ⟨rfl, .some rfl, ?_⟩
  intro h
  cases h

end Conveyed

end DuckdbLoki
