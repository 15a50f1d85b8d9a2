import DuckdbLoki.Pager
import DuckdbLoki.Yyjson

namespace DuckdbLoki

section Parse

def snippetChar (c : Char) : Char :=
  if 0x20 ≤ c.toNat ∧ c.toNat < 0x7f then c
  else if c = '\t' ∨ c = '\n' ∨ c = '\r' then ' '
  else '?'

def responseSnippet (body : Str) (maxBytes : ℕ) : Str :=
  (body.take maxBytes).map snippetChar ++ (if maxBytes < body.length then "...".toList else [])

/-- A tuple of `values`; one without a readable timestamp is skipped. -/
def parseEntry (pair : Json) : Option StreamEntry :=
  match (pair.arrGet 0).bind Json.getStr with
  | none => none
  | some ts => (stoll ts).map (fun ns ↦
      { tsNs := ns
        line := ((pair.arrGet 1).bind Json.getStr).getD []
        structuredMetadata :=
          stringMembers ((pair.arrGet 2).bind (·.objGet "structuredMetadata".toList)) })

def valuesOf (elem : Json) : List Json :=
  ((elem.objGet "values".toList).map Json.arrElems).getD []

def parseChunk (elem : Json) : StreamChunk where
  labels := stringMembers (elem.objGet "stream".toList)
  values := (valuesOf elem).filterMap parseEntry

def resultOf (data : Json) : List Json :=
  ((data.objGet "result".toList).map Json.arrElems).getD []

def parseStreamsResponse (read : Str → Option Json) (body : Str) :
    Except Str (List StreamChunk) :=
  match read body with
  | none =>
    .error ("Loki response is not valid JSON: ".toList ++ responseSnippet body 500)
  | some root =>
    match root.objGet "data".toList with
    | none =>
      .error ("Loki response missing 'data' field: ".toList ++ responseSnippet body 500)
    | some data =>
      let rt := (data.objGet "resultType".toList).bind Json.getStr
      if rt ≠ some "streams".toList then
        .error ("Loki resultType is '".toList ++ rt.getD "(none)".toList ++
          ("', expected 'streams'; loki_scan supports log queries only (metric queries are not " ++
            "supported yet)").toList)
      else .ok ((resultOf data).map parseChunk)

end Parse

section Render

def RendersMap (m : StringMap) (v : Json) : Prop := ∃ ps, ps.Perm m.pairs ∧ v = stringObject ps

/-- An entry as a tuple: its timestamp and line, and its structured metadata in
a third element, which may be left out where there is none. -/
def RendersEntry (e : StreamEntry) (v : Json) : Prop :=
  ∃ rest, v = .array (.string (toDecimal e.tsNs) :: .string e.line :: rest) ∧
    match (rest[0]?).bind (·.objGet "structuredMetadata".toList) with
    | some metadata => RendersMap e.structuredMetadata metadata
    | none => e.structuredMetadata = .empty

def RendersChunk (c : StreamChunk) (v : Json) : Prop :=
  ∃ stream tuples, v.objGet "stream".toList = some stream ∧ RendersMap c.labels stream ∧
    v.objGet "values".toList = some (.array tuples) ∧ List.Forall₂ RendersEntry c.values tuples

/-- A document that says what the chunks say, whatever else is in it. -/
def RendersStreams (chunks : List StreamChunk) (root : Json) : Prop :=
  ∃ data elems, root.objGet "data".toList = some data ∧
    data.objGet "resultType".toList = some (.string "streams".toList) ∧
    data.objGet "result".toList = some (.array elems) ∧ List.Forall₂ RendersChunk chunks elems

def renderEntry (e : StreamEntry) : Json :=
  .array [.string (toDecimal e.tsNs), .string e.line,
    .object [("structuredMetadata".toList, stringObject e.structuredMetadata.pairs)]]

def renderChunk (c : StreamChunk) : Json :=
  .object [("stream".toList, stringObject c.labels.pairs),
    ("values".toList, .array (c.values.map renderEntry))]

def renderStreams (chunks : List StreamChunk) : Json :=
  .object [("status".toList, .string "success".toList),
    ("data".toList, .object [("resultType".toList, .string "streams".toList),
      ("result".toList, .array (chunks.map renderChunk))])]

theorem rendersEntry_renderEntry (e : StreamEntry) : RendersEntry e (renderEntry e) :=
  ⟨_, rfl, _, List.Perm.refl _, rfl⟩

theorem rendersChunk_renderChunk (c : StreamChunk) : RendersChunk c (renderChunk c) := by
  refine ⟨_, _, rfl, ⟨_, List.Perm.refl _, rfl⟩, rfl, ?_⟩
  rw [List.forall₂_map_right_iff]
  exact List.forall₂_same.mpr (fun e _ ↦ rendersEntry_renderEntry e)

theorem rendersStreams_renderStreams (chunks : List StreamChunk) :
    RendersStreams chunks (renderStreams chunks) := by
  refine ⟨_, _, rfl, rfl, rfl, ?_⟩
  rw [List.forall₂_map_right_iff]
  exact List.forall₂_same.mpr (fun c _ ↦ rendersChunk_renderChunk c)

end Render

section NulFree

def StreamEntry.NulFree (e : StreamEntry) : Prop :=
  '\x00' ∉ e.line ∧ e.structuredMetadata.NulFree

instance (e : StreamEntry) : Decidable e.NulFree := inferInstanceAs (Decidable (_ ∧ _))

def StreamChunk.NulFree (c : StreamChunk) : Prop := c.labels.NulFree ∧ ∀ e ∈ c.values, e.NulFree

instance (c : StreamChunk) : Decidable c.NulFree := inferInstanceAs (Decidable (_ ∧ _))

theorem parseEntry_nulFree {pair : Json} {e : StreamEntry} (h : parseEntry pair = some e) :
    e.NulFree := by
  unfold parseEntry at h
  split at h
  · cases h
  · obtain ⟨ns, _, heq⟩ := Option.map_eq_some_iff.mp h
    rw [← heq]
    refine ⟨?_, stringMembers_nulFree _⟩
    cases hline : (pair.arrGet 1).bind Json.getStr with
    | none => exact List.not_mem_nil
    | some line =>
      obtain ⟨v, _, hv⟩ := Option.bind_eq_some_iff.mp hline
      exact notMem_getStr hv

theorem parseChunk_nulFree (elem : Json) : (parseChunk elem).NulFree := by
  refine ⟨stringMembers_nulFree _, ?_⟩
  intro e he
  obtain ⟨pair, _, hpair⟩ := List.mem_filterMap.mp he
  exact parseEntry_nulFree hpair

theorem parseStreamsResponse_eq_ok {read : Str → Option Json} {body : Str}
    {chunks : List StreamChunk} (h : parseStreamsResponse read body = .ok chunks) :
    ∃ root data, read body = some root ∧ root.objGet "data".toList = some data ∧
      chunks = (resultOf data).map parseChunk := by
  unfold parseStreamsResponse at h
  split at h
  · cases h
  · rename_i root hroot
    split at h
    · cases h
    · rename_i data hdata
      dsimp only at h
      split_ifs at h
      exact ⟨root, data, hroot, hdata, (Except.ok.inj h).symm⟩

theorem parseStreamsResponse_streams {read : Str → Option Json} {body : Str} {root data : Json}
    (hread : read body = some root) (hdata : root.objGet "data".toList = some data)
    (htype : (data.objGet "resultType".toList).bind Json.getStr = some "streams".toList) :
    parseStreamsResponse read body = .ok ((resultOf data).map parseChunk) := by
  unfold parseStreamsResponse
  rw [hread]
  dsimp only
  rw [hdata]
  dsimp only
  rw [if_neg (not_not.mpr htype)]

theorem parseStreamsResponse_nulFree {read : Str → Option Json} {body : Str}
    {chunks : List StreamChunk} (h : parseStreamsResponse read body = .ok chunks) :
    ∀ c ∈ chunks, c.NulFree := by
  obtain ⟨_, data, _, _, heq⟩ := parseStreamsResponse_eq_ok h
  intro c hc
  rw [heq] at hc
  obtain ⟨elem, _, helem⟩ := List.mem_map.mp hc
  rw [← helem]
  exact parseChunk_nulFree elem

end NulFree

section RoundTrip

theorem parseEntry_renders {e : StreamEntry} (hts : InInt64 e.tsNs) (hnul : e.NulFree) {v : Json}
    (h : RendersEntry e v) : parseEntry v = some e := by
  obtain ⟨rest, rfl, hmetadata⟩ := h
  have hts' : Json.getStr (.string (toDecimal e.tsNs)) = some (toDecimal e.tsNs) :=
    congrArg some (cString_of_notMem (notMem_toDecimal e.tsNs))
  have hline : Json.getStr (.string e.line) = some e.line :=
    congrArg some (cString_of_notMem hnul.1)
  have hread : stringMembers ((rest[0]?).bind (·.objGet "structuredMetadata".toList)) =
      e.structuredMetadata := by
    cases hthird : (rest[0]?).bind (·.objGet "structuredMetadata".toList) with
    | none =>
      rw [hthird] at hmetadata
      exact Eq.symm hmetadata
    | some metadata =>
      rw [hthird] at hmetadata
      obtain ⟨ps, hp, rfl⟩ := hmetadata
      exact stringMembers_of_perm hnul.2 hp
  unfold parseEntry
  simp only [Json.arrGet, Json.arrElems, List.getElem?_cons_zero, List.getElem?_cons_succ,
    Option.bind_some, hts', hline, hread, stoll_toDecimal hts, Option.map_some, Option.getD_some]

theorem filterMap_parseEntry {es : List StreamEntry} (hts : ∀ e ∈ es, InInt64 e.tsNs)
    (hnul : ∀ e ∈ es, e.NulFree) {vs : List Json} (h : List.Forall₂ RendersEntry es vs) :
    vs.filterMap parseEntry = es := by
  induction h with
  | nil => rfl
  | cons he _ ih =>
    obtain ⟨hts₁, hts⟩ := List.forall_mem_cons.mp hts
    obtain ⟨hnul₁, hnul⟩ := List.forall_mem_cons.mp hnul
    rw [List.filterMap_cons_some (parseEntry_renders hts₁ hnul₁ he), ih hts hnul]

theorem parseChunk_renders {c : StreamChunk} (hts : ∀ e ∈ c.values, InInt64 e.tsNs)
    (hnul : c.NulFree) {v : Json} (h : RendersChunk c v) : parseChunk v = c := by
  obtain ⟨stream, tuples, hstream, ⟨ps, hp, hps⟩, hvalues, htuples⟩ := h
  have hlabels : stringMembers (v.objGet "stream".toList) = c.labels := by
    rw [hstream, hps]
    exact stringMembers_of_perm hnul.1 hp
  have hentries : (valuesOf v).filterMap parseEntry = c.values := by
    rw [valuesOf, hvalues]
    exact filterMap_parseEntry hts hnul.2 htuples
  rw [parseChunk, hlabels, hentries]

theorem map_parseChunk {chunks : List StreamChunk}
    (hts : ∀ c ∈ chunks, ∀ e ∈ c.values, InInt64 e.tsNs) (hnul : ∀ c ∈ chunks, c.NulFree)
    {vs : List Json} (h : List.Forall₂ RendersChunk chunks vs) : vs.map parseChunk = chunks := by
  induction h with
  | nil => rfl
  | cons hc _ ih =>
    obtain ⟨hts₁, hts⟩ := List.forall_mem_cons.mp hts
    obtain ⟨hnul₁, hnul⟩ := List.forall_mem_cons.mp hnul
    rw [List.map_cons, parseChunk_renders hts₁ hnul₁ hc, ih hts hnul]

/-- Decoding a response undoes encoding it exactly when no text has a NUL. -/
theorem parseStreamsResponse_renders_iff {chunks : List StreamChunk}
    (hts : ∀ c ∈ chunks, ∀ e ∈ c.values, InInt64 e.tsNs) {read : Str → Option Json} {body : Str}
    {root : Json} (hread : read body = some root) (hroot : RendersStreams chunks root) :
    parseStreamsResponse read body = .ok chunks ↔ ∀ c ∈ chunks, c.NulFree := by
  constructor
  · exact parseStreamsResponse_nulFree
  · intro hnul
    obtain ⟨data, elems, hdata, htype, hresult, helems⟩ := hroot
    have hmap : (resultOf data).map parseChunk = chunks := by
      rw [resultOf, hresult]
      exact map_parseChunk hts hnul helems
    have hstreams : (data.objGet "resultType".toList).bind Json.getStr =
        some "streams".toList := by
      rw [htype]
      decide
    rw [parseStreamsResponse_streams hread hdata hstreams, hmap]

end RoundTrip

section Samples

def sampleChunk (line : Str) : StreamChunk :=
  ⟨StringMap.empty.emplace "app".toList "web".toList, [⟨-7, line, .empty⟩]⟩

def sampleBody (line : String) : Str :=
  ("\x7b\"status\":\"success\",\"data\":\x7b\"resultType\":\"streams\",\"result\":[\x7b\"stream\":" ++
    "\x7b\"app\":\"web\"\x7d,\"values\":[[\"-7\",\"" ++ line ++
    "\",\x7b\"structuredMetadata\":\x7b\x7d\x7d]]\x7d]\x7d\x7d").toList

def sampleRead (escaped : String) (line : Str) (body : Str) : Option Json :=
  if body = sampleBody escaped then some (renderStreams [sampleChunk line]) else none

theorem parseStreamsResponse_bell :
    parseStreamsResponse (sampleRead "up\\u0007" "up\x07".toList) (sampleBody "up\\u0007") =
      .ok [sampleChunk "up\x07".toList] := by
  apply (parseStreamsResponse_renders_iff _ (if_pos rfl) (rendersStreams_renderStreams _)).mpr
  · decide
  · decide

/-- A line with a NUL comes back cut. -/
theorem parseStreamsResponse_nul :
    RendersStreams [sampleChunk "a\x00b".toList] (renderStreams [sampleChunk "a\x00b".toList]) ∧
      sampleRead "a\\u0000b" "a\x00b".toList (sampleBody "a\\u0000b") =
        some (renderStreams [sampleChunk "a\x00b".toList]) ∧
      parseStreamsResponse (sampleRead "a\\u0000b" "a\x00b".toList) (sampleBody "a\\u0000b") =
        .ok [sampleChunk ['a']] ∧
      sampleChunk "a\x00b".toList ≠ sampleChunk ['a'] := by
  have hread : sampleRead "a\\u0000b" "a\x00b".toList (sampleBody "a\\u0000b") =
      some (renderStreams [sampleChunk "a\x00b".toList]) := if_pos rfl
  refine ⟨rendersStreams_renderStreams _, hread, ?_, by decide⟩
  unfold parseStreamsResponse
  rw [hread]
  rfl

end Samples

end DuckdbLoki
