import DuckdbLoki.Catalog
import DuckdbLoki.Translation

namespace DuckdbLoki

/-- The strings of a `data` array, before they are made a `std::string`. -/
def sentNames (elems : List Json) : List Str :=
  elems.filterMap (fun elem ↦ match elem with
    | .string s => some s
    | _ => none)

structure SoundDiscovery (sent names : List Str) : Prop where
  sublist : names.Sublist sent
  promotable : Promotable names
  complete : ∀ s ∈ sent, isValidLabelName s = true → isReservedColumnName s = false →
    ∃ name ∈ names, ciEquals name s = true
  logs : ((logsColumns names).map ColumnDefinition.key).Nodup
  series : ((seriesColumns names).map ColumnDefinition.key).Nodup
  schema : ∀ (config : LokiCatalogConfig) (tenant : LokiTenant), tenant.labelColumns = names →
    LokiSchemaEntry.new config tenant = .ok (schemaOf config tenant)
  matchers : ∀ (db : Database) (get : LogicalGet) (bind : ScanBindData)
    (filters : List Expression), AttachedScan names bind →
    ∀ m ∈ (pushdownComplexFilter db get bind filters).1.pushedMatchers,
      isValidLabelName m.label = true

section Names

theorem keepLabelName_sublist {names sent : List Str} (h : names.Sublist sent) (name : Str) :
    (keepLabelName names name).Sublist (sent ++ [name]) := by
  unfold keepLabelName
  split_ifs
  · exact h.trans (List.sublist_append_left _ _)
  · exact h.trans (List.sublist_append_left _ _)
  · exact h.append_right [name]

theorem foldl_keepLabelName_sublist (sent : List Str) :
    (sent.foldl keepLabelName []).Sublist sent := by
  induction sent using List.reverseRecOn with
  | nil => exact List.Sublist.slnil
  | append_singleton sent name ih =>
    rw [List.foldl_append]
    exact keepLabelName_sublist ih name

theorem mem_keepLabelName {names : List Str} {other : Str} (h : other ∈ names) (name : Str) :
    other ∈ keepLabelName names name := by
  unfold keepLabelName
  split_ifs
  · exact h
  · exact h
  · exact List.mem_append_left _ h

theorem keepLabelName_represents (names : List Str) {name : Str}
    (hvalid : isValidLabelName name = true) (hunreserved : isReservedColumnName name = false) :
    ∃ kept ∈ keepLabelName names name, ciEquals kept name = true := by
  have hkeep : ¬ (¬ isValidLabelName name = true ∨ isReservedColumnName name = true) := by
    rw [hvalid, hunreserved]
    decide
  unfold keepLabelName
  rw [if_neg hkeep]
  split_ifs with hseen
  · obtain ⟨kept, hkept, heq⟩ := List.any_eq_true.mp hseen
    exact ⟨kept, hkept, ciEquals_iff.mpr (ciEquals_iff.mp heq).symm⟩
  · exact ⟨name, List.mem_append_right _ List.mem_cons_self, ciEquals_iff.mpr rfl⟩

theorem foldl_keepLabelName_complete (sent : List Str) : ∀ s ∈ sent, isValidLabelName s = true →
    isReservedColumnName s = false → ∃ name ∈ sent.foldl keepLabelName [],
      ciEquals name s = true := by
  induction sent using List.reverseRecOn with
  | nil => exact fun s hs ↦ absurd hs List.not_mem_nil
  | append_singleton sent last ih =>
    intro s hs hvalid hunreserved
    rw [List.foldl_append]
    rcases List.mem_append.mp hs with hs | hs
    · obtain ⟨name, hname, heq⟩ := ih s hs hvalid hunreserved
      exact ⟨name, mem_keepLabelName hname last, heq⟩
    · obtain rfl := List.mem_singleton.mp hs
      exact keepLabelName_represents _ hvalid hunreserved

theorem notMem_of_isValidLabelName {s : Str} (h : isValidLabelName s = true) : '\x00' ∉ s := by
  intro hmem
  cases s with
  | nil => exact List.not_mem_nil hmem
  | cons c s =>
    simp only [isValidLabelName, Bool.and_eq_true, List.all_eq_true] at h
    rcases List.mem_cons.mp hmem with hc | hs
    · rw [← hc] at h
      exact absurd h.1 (by decide)
    · exact absurd (h.2 _ hs) (by decide)

theorem keepLabelName_cString {s : Str} (names : List Str)
    (h : '\x00' ∈ s → ¬ (isValidLabelName (cString s) = true ∧
      isReservedColumnName (cString s) = false)) :
    keepLabelName names (cString s) = keepLabelName names s := by
  by_cases hnul : '\x00' ∈ s
  · have hinvalid : ¬ isValidLabelName s = true :=
      fun hvalid ↦ notMem_of_isValidLabelName hvalid hnul
    have hcut : ¬ isValidLabelName (cString s) = true ∨
        isReservedColumnName (cString s) = true := by
      by_contra hname
      rw [not_or, not_not, Bool.not_eq_true] at hname
      exact h hnul hname
    unfold keepLabelName
    rw [if_pos hcut, if_pos (Or.inl hinvalid)]
  · rw [cString_of_notMem hnul]

theorem foldl_keepLabelName_cString {sent : List Str} (names : List Str)
    (h : ∀ s ∈ sent, '\x00' ∈ s → ¬ (isValidLabelName (cString s) = true ∧
      isReservedColumnName (cString s) = false)) :
    (sent.map cString).foldl keepLabelName names = sent.foldl keepLabelName names := by
  induction sent generalizing names with
  | nil => rfl
  | cons s sent ih =>
    obtain ⟨hs, hsent⟩ := List.forall_mem_cons.mp h
    rw [List.map_cons, List.foldl_cons, List.foldl_cons, keepLabelName_cString names hs,
      ih _ hsent]

end Names

section Discovery

structure Lists (read : Str → Option Json) (response : HttpResponse) (elems : List Json) :
    Prop where
  error : response.error = []
  status : 200 ≤ response.status ∧ response.status < 300
  data : ∃ root, read response.body = some root ∧ root.objGet "data".toList = some (.array elems)

theorem getStr_eq (elem : Json) : elem.getStr =
    (match elem with
      | .string s => some s
      | _ => none : Option Str).map cString := by
  cases elem with
  | _ => rfl

theorem fetchLokiLabelNames_of_lists {read : Str → Option Json} {response : HttpResponse}
    {elems : List Json} (h : Lists read response elems) :
    fetchLokiLabelNames read response =
      .ok (((sentNames elems).map cString).foldl keepLabelName []) := by
  obtain ⟨root, hread, hdata⟩ := h.data
  have hparse : parseStringArrayResponse read response.body =
      .ok ((sentNames elems).map cString) := by
    unfold parseStringArrayResponse
    rw [hread]
    dsimp only
    rw [hdata]
    dsimp only
    rw [sentNames, List.map_filterMap, funext getStr_eq]
  unfold fetchLokiLabelNames
  rw [if_neg (not_not.mpr h.error), if_neg (by have := h.status; omega), hparse]

theorem SoundDiscovery.of_promotable {sent names : List Str} (hnames : Promotable names)
    (hsublist : names.Sublist sent)
    (hcomplete : ∀ s ∈ sent, isValidLabelName s = true → isReservedColumnName s = false →
      ∃ name ∈ names, ciEquals name s = true) : SoundDiscovery sent names := by
  refine ⟨hsublist, hnames, hcomplete, ?_, ?_, ?_, ?_⟩
  · apply hnames.columns_nodup [_, _] [_, _]
    · decide
    · decide
  · apply hnames.columns_nodup [] [_]
    · decide
    · decide
  · intro config tenant htenant
    exact LokiSchemaEntry.new_eq (htenant ▸ hnames)
  · intro db get bind filters hbind
    exact (hbind.pushed hnames.valid).2.2.2

/-- Over every list of names made of strings in `S` the discovery is sound,
exactly when none of them has a label name in front of a NUL. -/
theorem fetchLokiLabelNames_sound_iff (S : Set Str) :
    (∀ (read : Str → Option Json) (response : HttpResponse) (elems : List Json),
      Lists read response elems → (∀ s ∈ sentNames elems, s ∈ S) →
      ∃ names, fetchLokiLabelNames read response = .ok names ∧
        SoundDiscovery (sentNames elems) names) ↔
    ∀ s ∈ S, '\x00' ∈ s → ¬ (isValidLabelName (cString s) = true ∧
      isReservedColumnName (cString s) = false) := by
  constructor
  · intro h s hs hnul hname
    have hlists : Lists (fun _ ↦ some (.object [("data".toList, .array [.string s])]))
        ⟨200, [], []⟩ [.string s] := ⟨rfl, by decide, _, rfl, rfl⟩
    obtain ⟨names, hnames, hsound⟩ := h _ _ _ hlists (List.forall_mem_singleton.mpr hs)
    have hkept : names = keepLabelName [] (cString s) := by
      rw [fetchLokiLabelNames_of_lists hlists] at hnames
      exact (Except.ok.inj hnames).symm
    obtain ⟨kept, hmem, _⟩ := keepLabelName_represents [] hname.1 hname.2
    have hcut : cString s ∈ names := by
      rw [hkept]
      have hsub := keepLabelName_sublist List.Sublist.slnil (cString s)
      have heq := List.mem_singleton.mp (hsub.subset hmem)
      exact heq ▸ hmem
    have hwhole : cString s = s := List.mem_singleton.mp (hsound.sublist.subset hcut)
    exact notMem_cString s (hwhole.symm ▸ hnul)
  · intro h read response elems hlists hS
    refine ⟨_, fetchLokiLabelNames_of_lists hlists, ?_⟩
    rw [foldl_keepLabelName_cString [] (fun s hs ↦ h s (hS s hs))]
    exact .of_promotable (Promotable.nil.foldl _) (foldl_keepLabelName_sublist _)
      (foldl_keepLabelName_complete _)

def nulBody : Str := "\x7b\"status\":\"success\",\"data\":[\"job\\u0000x\"]\x7d".toList

def nulRead (body : Str) : Option Json :=
  if body = nulBody then
    some (.object [("status".toList, .string "success".toList),
      ("data".toList, .array [.string "job\x00x".toList])])
  else none

/-- A name outside the grammar is promoted under its beginning. -/
theorem fetchLokiLabelNames_nul :
    fetchLokiLabelNames nulRead ⟨200, nulBody, []⟩ = .ok ["job".toList] ∧
      Lists nulRead ⟨200, nulBody, []⟩ [.string "job\x00x".toList] ∧
      isValidLabelName "job\x00x".toList = false ∧
      ¬ SoundDiscovery (sentNames [.string "job\x00x".toList]) ["job".toList] := by
  have hlists : Lists nulRead ⟨200, nulBody, []⟩ [.string "job\x00x".toList] :=
    ⟨rfl, by decide, _, if_pos rfl, rfl⟩
  refine ⟨fetchLokiLabelNames_of_lists hlists, hlists, rfl, ?_⟩
  intro hsound
  exact absurd (List.mem_singleton.mp (hsound.sublist.subset List.mem_cons_self)) (by decide)

end Discovery

end DuckdbLoki
