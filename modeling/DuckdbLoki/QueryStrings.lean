import DuckdbLoki.Reading.Percent
import DuckdbLoki.Requests

namespace DuckdbLoki

section Encode

theorem hexValue_digitChar {k : ℕ} (h : k < 16) :
    Percent.hexValue (Nat.digitChar k).toUpper = some k := by
  have hall : ∀ k < 16, Percent.hexValue (Nat.digitChar k).toUpper = some k := by decide
  exact hall k h

theorem isUnreserved_iff {c : Char} : Percent.isUnreserved c = true ↔
    c.isAlphanum ∨ c = '-' ∨ c = '_' ∨ c = '.' ∨ c = '~' := by
  simp only [Percent.isUnreserved, Bool.or_eq_true, decide_eq_true_eq]
  tauto

theorem urlEncodeChar_cases {c : Char} (hc : c.toNat < 256) :
    Percent.isUnreserved c = true ∧ urlEncodeChar c = [c] ∨
      ∃ hi lo, urlEncodeChar c = ['%', hi, lo] ∧ Percent.hexValue hi = some (c.toNat / 16) ∧
        Percent.hexValue lo = some (c.toNat % 16) := by
  unfold urlEncodeChar
  split_ifs with h
  · exact Or.inl ⟨isUnreserved_iff.mpr h, rfl⟩
  · exact Or.inr ⟨_, _, rfl, hexValue_digitChar (by omega), hexValue_digitChar (by omega)⟩

theorem urlEncodeChar_decode (plus : Char) {c : Char} (hc : c.toNat < 256) (t : Str) :
    Percent.decode plus (urlEncodeChar c ++ t) = (Percent.decode plus t).map (c :: ·) := by
  rcases urlEncodeChar_cases hc with ⟨hplain, hsent⟩ | ⟨hi, lo, hsent, hhi, hlo⟩
  · have hne : ∀ d, Percent.isUnreserved d = false → c ≠ d := by
      intro d hd heq
      rw [heq, hd] at hplain
      cases hplain
    rw [hsent]
    exact Percent.decode_plain plus (hne '%' rfl) (hne '+' rfl) t
  · rw [hsent]
    have hvalue : c.toNat / 16 * 16 + c.toNat % 16 = c.toNat := Nat.div_add_mod' c.toNat 16
    have hdecode := Percent.decode_byte plus hhi hlo t
    rw [hvalue, Char.ofNat_toNat] at hdecode
    exact hdecode

theorem urlEncode_decode {s : Str} (hs : IsBytes s) (plus : Char) :
    Percent.decode plus (urlEncode s) = some s :=
  Percent.decode_flatMap plus (fun c hc t ↦ urlEncodeChar_decode plus (hs c hc) t)

theorem urlEncode_encoded {s : Str} (hs : IsBytes s) :
    Percent.Encoded Percent.isUnreserved (urlEncode s) := by
  induction s with
  | nil => exact .nil
  | cons c s ih =>
    obtain ⟨hc, hs⟩ := List.forall_mem_cons.mp hs
    rw [urlEncode, List.flatMap_cons]
    apply Percent.Encoded.append _ (ih hs)
    rcases urlEncodeChar_cases hc with ⟨hplain, hsent⟩ | ⟨hi, lo, hsent, hhi, hlo⟩
    · rw [hsent]
      exact .plain hplain .nil
    · rw [hsent]
      exact .byte hhi hlo .nil

end Encode

section Query

def appendParam (out : Str) (param : Str × Str) : Str :=
  (if out ≠ [] then out ++ ['&'] else out) ++ urlEncode param.1 ++ '=' :: urlEncode param.2

def sentParam (param : Str × Str) : Str := urlEncode param.1 ++ '=' :: urlEncode param.2

theorem sentParam_ne_nil (param : Str × Str) : sentParam param ≠ [] :=
  List.append_ne_nil_of_right_ne_nil _ (List.cons_ne_nil _ _)

theorem intercalate_append (sep a b : Str) (parts : List Str) :
    sep.intercalate ((a ++ b) :: parts) = a ++ sep.intercalate (b :: parts) := by
  cases parts with
  | nil => rw [List.intercalate_singleton, List.intercalate_singleton]
  | cons part parts =>
    rw [List.intercalate_cons_cons, List.intercalate_cons_cons]
    simp only [List.append_assoc]

theorem foldl_appendParam {out : Str} (hout : out ≠ []) (params : List (Str × Str)) :
    params.foldl appendParam out = ['&'].intercalate (out :: params.map sentParam) := by
  induction params generalizing out with
  | nil => exact List.intercalate_singleton.symm
  | cons param params ih =>
    have hstep : appendParam out param = (out ++ ['&']) ++ sentParam param := by
      rw [appendParam, if_pos hout, List.append_assoc]
      rfl
    rw [List.foldl_cons, hstep, ih (List.append_ne_nil_of_right_ne_nil _ (sentParam_ne_nil param)),
      intercalate_append, List.map_cons, List.intercalate_cons_cons]

/-- The separator stands between the parameters and nowhere else. -/
theorem buildQueryString_eq_foldl (request : QueryRangeRequest) :
    buildQueryString request = request.params.foldl appendParam [] := by
  have hsent : buildQueryString request = ['&'].intercalate (request.params.map sentParam) := rfl
  rw [hsent]
  cases request.params with
  | nil => rfl
  | cons param params =>
    have hfirst : appendParam [] param = sentParam param := by
      rw [appendParam, if_neg (not_not.mpr rfl)]
      rfl
    rw [List.foldl_cons, hfirst, foldl_appendParam (sentParam_ne_nil param), List.map_cons]

variable {param : Str × Str} {params : List (Str × Str)}

theorem sentParam_encoded (hname : IsBytes param.1) (hvalue : IsBytes param.2) :
    Percent.Encoded (fun c ↦ Percent.isUnreserved c || c = '=') (sentParam param) := by
  have hmono : ∀ c, Percent.isUnreserved c = true →
      (Percent.isUnreserved c || decide (c = '=')) = true := by
    intro c hc
    rw [hc, Bool.true_or]
  apply Percent.Encoded.append ((urlEncode_encoded hname).mono hmono)
  exact .plain (by decide) ((urlEncode_encoded hvalue).mono hmono)

theorem sentParam_field (hname : IsBytes param.1) (hvalue : IsBytes param.2) :
    Percent.field (sentParam param) = some param := by
  have hcut : '=' ∉ urlEncode param.1 :=
    (urlEncode_encoded hname).notMem (by decide) (by decide) (by decide)
  exact Percent.field_append hcut (urlEncode_decode hname ' ') (urlEncode_decode hvalue ' ')

theorem mapM_field (h : ∀ param ∈ params, IsBytes param.1 ∧ IsBytes param.2) :
    (params.map sentParam).mapM Percent.field = some params := by
  induction params with
  | nil => rfl
  | cons param params ih =>
    obtain ⟨⟨hname, hvalue⟩, hrest⟩ := List.forall_mem_cons.mp h
    rw [List.map_cons, List.mapM_cons, sentParam_field hname hvalue, ih hrest]
    rfl

theorem intercalate_encoded {plain : Char → Bool} (hplain : plain '&' = true) {parts : List Str}
    (h : ∀ part ∈ parts, Percent.Encoded plain part) :
    Percent.Encoded plain (['&'].intercalate parts) := by
  induction parts with
  | nil => exact .nil
  | cons part parts ih =>
    obtain ⟨hpart, hparts⟩ := List.forall_mem_cons.mp h
    cases parts with
    | nil =>
      rw [List.intercalate_singleton]
      exact hpart
    | cons part' parts =>
      rw [List.intercalate_cons_cons, List.append_assoc]
      exact hpart.append (.plain hplain (ih hparts))

theorem parseQuery_buildQueryString {request : QueryRangeRequest}
    (h : ∀ param ∈ request.params, IsBytes param.1 ∧ IsBytes param.2) :
    Percent.parseQuery (buildQueryString request) = some request.params := by
  have hsent : buildQueryString request = ['&'].intercalate (request.params.map sentParam) := rfl
  rw [hsent]
  cases hparams : request.params with
  | nil => rfl
  | cons param params =>
    rw [hparams] at h
    have hamp : ∀ part ∈ (param :: params).map sentParam, '&' ∉ part := by
      intro part hpart
      obtain ⟨param', hmem, heq⟩ := List.mem_map.mp hpart
      rw [← heq]
      exact (sentParam_encoded (h _ hmem).1 (h _ hmem).2).notMem (by decide) (by decide) (by decide)
    have hne : ['&'].intercalate ((param :: params).map sentParam) ≠ [] := by
      rw [List.map_cons, ← List.append_nil (sentParam param), intercalate_append]
      exact List.append_ne_nil_of_left_ne_nil (sentParam_ne_nil param) _
    rw [Percent.parseQuery, if_neg hne, List.splitOn_intercalate _ hamp (List.cons_ne_nil _ _),
      mapM_field h]

theorem buildQueryString_encoded {request : QueryRangeRequest}
    (h : ∀ param ∈ request.params, IsBytes param.1 ∧ IsBytes param.2) :
    Percent.Encoded (fun c ↦ Percent.isUnreserved c || c = '&' || c = '=')
      (buildQueryString request) := by
  apply intercalate_encoded (by decide)
  intro part hpart
  obtain ⟨param, hmem, heq⟩ := List.mem_map.mp hpart
  rw [← heq]
  apply (sentParam_encoded (h param hmem).1 (h param hmem).2).mono
  intro c hc
  rw [Bool.or_eq_true] at hc
  rw [Bool.or_eq_true, Bool.or_eq_true]
  exact hc.imp_left Or.inl

end Query

section Path

theorem slash_notMem_urlEncode {name : Str} (hname : IsBytes name) : '/' ∉ urlEncode name :=
  (urlEncode_encoded hname).notMem (by decide) (by decide) (by decide)

theorem mapM_decode {segments : List Str} (h : ∀ segment ∈ segments, IsBytes segment) :
    (segments.map urlEncode).mapM (Percent.decode '+') = some segments := by
  induction segments with
  | nil => rfl
  | cons segment segments ih =>
    obtain ⟨hsegment, hsegments⟩ := List.forall_mem_cons.mp h
    rw [List.map_cons, List.mapM_cons, urlEncode_decode hsegment, ih hsegments]
    rfl

theorem parsePath_intercalate {segments : List Str} (hne : segments ≠ [])
    (h : ∀ segment ∈ segments, IsBytes segment) :
    Percent.parsePath (['/'].intercalate (segments.map urlEncode)) = some segments := by
  have hslash : ∀ part ∈ segments.map urlEncode, '/' ∉ part := by
    intro part hpart
    obtain ⟨segment, hmem, heq⟩ := List.mem_map.mp hpart
    rw [← heq]
    exact slash_notMem_urlEncode (h segment hmem)
  rw [Percent.parsePath, List.splitOn_intercalate _ hslash (mt List.map_eq_nil_iff.mp hne),
    mapM_decode h]

theorem buildLabelValuesRequest_path (name : Str) (startNs endNs : ℤ) (query : Str) :
    (buildLabelValuesRequest name startNs endNs query).path =
      ['/'].intercalate (["".toList, "loki".toList, "api".toList, "v1".toList, "label".toList,
        name, "values".toList].map urlEncode) := by
  have hfixed : ["".toList, "loki".toList, "api".toList, "v1".toList, "label".toList,
      "values".toList].map urlEncode = ["".toList, "loki".toList, "api".toList, "v1".toList,
        "label".toList, "values".toList] := by decide
  simp only [List.map_cons, List.map_nil, List.cons.injEq, and_true] at hfixed ⊢
  obtain ⟨hempty, hloki, hapi, hv1, hlabel, hvalues⟩ := hfixed
  rw [hempty, hloki, hapi, hv1, hlabel, hvalues]
  unfold buildLabelValuesRequest
  dsimp only
  split_ifs <;> simp [appendTimeBounds, List.intercalate]

theorem parsePath_buildLabelValuesRequest {name : Str} (hname : IsBytes name) (startNs endNs : ℤ)
    (query : Str) : Percent.parsePath (buildLabelValuesRequest name startNs endNs query).path =
      some ["".toList, "loki".toList, "api".toList, "v1".toList, "label".toList, name,
        "values".toList] := by
  rw [buildLabelValuesRequest_path]
  apply parsePath_intercalate (List.cons_ne_nil _ _)
  simp only [List.forall_mem_cons]
  exact ⟨by decide, by decide, by decide, by decide, by decide, hname, by decide, nofun⟩

end Path

/-- A server reads the parameters back as they were given, and the label name
out of its segment of the path. -/
theorem buildQueryString_decodes {request : QueryRangeRequest}
    (h : ∀ param ∈ request.params, IsBytes param.1 ∧ IsBytes param.2) {name : Str}
    (hname : IsBytes name) (startNs endNs : ℤ) (query : Str) :
    (buildQueryString request = request.params.foldl appendParam [] ∧
      Percent.parseQuery (buildQueryString request) = some request.params ∧
      Percent.Encoded (fun c ↦ Percent.isUnreserved c || c = '&' || c = '=')
        (buildQueryString request)) ∧
    '/' ∉ urlEncode name ∧
    Percent.parsePath (buildLabelValuesRequest name startNs endNs query).path =
      some ["".toList, "loki".toList, "api".toList, "v1".toList, "label".toList, name,
        "values".toList] :=
  ⟨⟨buildQueryString_eq_foldl request, parseQuery_buildQueryString h, buildQueryString_encoded h⟩,
    slash_notMem_urlEncode hname, parsePath_buildLabelValuesRequest hname startNs endNs query⟩

def sampleRequest : QueryRangeRequest :=
  ⟨"/loki/api/v1/series".toList,
    [("match[]".toList, "\x7bjob=\"a&b\"\x7d".toList), ([], [])]⟩

theorem buildQueryString_decodes_series :
    (buildQueryString sampleRequest = sampleRequest.params.foldl appendParam [] ∧
      Percent.parseQuery (buildQueryString sampleRequest) = some sampleRequest.params ∧
      Percent.Encoded (fun c ↦ Percent.isUnreserved c || c = '&' || c = '=')
        (buildQueryString sampleRequest)) ∧
    '/' ∉ urlEncode "a/b".toList ∧
    Percent.parsePath (buildLabelValuesRequest "a/b".toList (-1) (-1) []).path =
      some ["".toList, "loki".toList, "api".toList, "v1".toList, "label".toList, "a/b".toList,
        "values".toList] :=
  buildQueryString_decodes (by decide) (by decide) (-1) (-1) []

example : buildQueryString sampleRequest =
    "match%5B%5D=%7Bjob%3D%22a%26b%22%7D&=".toList := by decide

end DuckdbLoki
