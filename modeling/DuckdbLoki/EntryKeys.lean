import DuckdbLoki.PagerRefinement

namespace DuckdbLoki

/-- The line and the label values are made of the characters `texts`, the label
names of `names`. -/
structure LokiRow.MadeOf (names texts : Set Char) (r : LokiRow) : Prop where
  line : ∀ c ∈ r.line, c ∈ texts
  labels : ∀ l ∈ r.labels.pairs, (∀ c ∈ l.1, c ∈ names) ∧ ∀ c ∈ l.2, c ∈ texts

/-- Equal in all but the structured metadata, which the key leaves out. -/
def LokiRow.Same (r r' : LokiRow) : Prop :=
  r.tsNs = r'.tsNs ∧ r.line = r'.line ∧ r.labels = r'.labels

def KeysIdentify (names texts : Set Char) : Prop :=
  ∀ r r' : LokiRow, r.MadeOf names texts → r'.MadeOf names texts → r.key = r'.key → r.Same r'

/-- What `Accept` leaves behind marks none but the entries of its page: the
next page loses only entries that were there. -/
def DropsRepeatsOnly (names texts : Set Char) : Prop :=
  ∀ (p p' : StreamPager) (page : List StreamChunk) (rows : List LokiRow) (r : LokiRow),
    (∀ r' ∈ pageRows page, r'.MadeOf names texts) → r.MadeOf names texts →
    p.accept page = some (p', rows) → p'.done = false → r.key ∈ p'.boundaryKeys →
    ∃ r' ∈ pageRows page, r.Same r'

section Keys

theorem LokiRow.key_eq (r : LokiRow) : r.key =
    toDecimal r.tsNs ++ '\x1f' :: (r.line ++ Framing.frames '\x1e' '\x1d' r.labels.pairs) := rfl

theorem same_of_key {r r' : LokiRow} (h : r.key = r'.key)
    (hinj : r.line ++ Framing.frames '\x1e' '\x1d' r.labels.pairs =
        r'.line ++ Framing.frames '\x1e' '\x1d' r'.labels.pairs →
      r.line = r'.line ∧ r.labels.pairs = r'.labels.pairs) : r.Same r' := by
  have hts : r.tsNs = r'.tsNs := entryKey_tsNs h
  rw [r.key_eq, r'.key_eq, hts] at h
  obtain ⟨hline, hpairs⟩ := hinj (List.cons.inj (List.append_cancel_left h)).2
  exact ⟨hts, hline, StringMap.eq_of_pairs hpairs⟩

variable {names texts : Set Char}

theorem LokiRow.MadeOf.notMem_line {r : LokiRow} (h : r.MadeOf names texts) {c : Char}
    (hc : c ∉ texts) : c ∉ r.line := fun hmem ↦ hc (h.line c hmem)

theorem LokiRow.MadeOf.notMem_labels {r : LokiRow} (h : r.MadeOf names texts) {c d : Char}
    (hc : c ∉ names) (hd : d ∉ texts) : ∀ l ∈ r.labels.pairs, c ∉ l.1 ∧ d ∉ l.2 := by
  intro l hl
  obtain ⟨hname, hvalue⟩ := h.labels l hl
  exact ⟨fun hmem ↦ hc (hname c hmem), fun hmem ↦ hd (hvalue d hmem)⟩

theorem keysIdentify_left (htexts : '\x1e' ∉ texts) (hnames : '\x1d' ∉ names) :
    KeysIdentify names texts := by
  intro r r' hr hr' h
  apply same_of_key h
  apply Framing.frames_inj_left (hr.notMem_line htexts) (hr'.notMem_line htexts)
  · exact hr.notMem_labels hnames htexts
  · exact hr'.notMem_labels hnames htexts

theorem keysIdentify_right (htexts : '\x1d' ∉ texts) (hnames : '\x1e' ∉ names) :
    KeysIdentify names texts := by
  intro r r' hr hr' h
  apply same_of_key h
  apply Framing.frames_inj_right (hr.notMem_line htexts) (hr'.notMem_line htexts)
  · exact hr.notMem_labels hnames htexts
  · exact hr'.notMem_labels hnames htexts

theorem KeysIdentify.dropsRepeatsOnly (h : KeysIdentify names texts) :
    DropsRepeatsOnly names texts := by
  intro p p' page rows r hpage hr haccept hopen hkey
  unfold StreamPager.accept at haccept
  dsimp only at haccept
  split_ifs at haccept with hend
  · rw [← (Prod.mk.inj (Option.some.inj haccept)).1] at hopen
    cases hopen
  · obtain ⟨cursor, _, haccept⟩ := Option.map_eq_some_iff.mp haccept
    split_ifs at haccept with hprogress
    · rw [← (Prod.mk.inj haccept).1] at hkey
      rw [StreamPager.boundaryOf_eq, List.mem_toFinset, List.mem_map] at hkey
      obtain ⟨r', hr', hkey⟩ := hkey
      have hmem := (List.mem_filter.mp hr').1
      exact ⟨r', hmem, h r r' hr (hpage r' hmem) hkey.symm⟩
    · rw [← (Prod.mk.inj haccept).1] at hopen
      cases hopen

end Keys

section Collisions

variable {names texts : Set Char} {line name value : Str}

def bareEntry (line : Str) : LokiRow := ⟨0, line, .empty, .empty⟩

theorem sorted_single (name value : Str) :
    [(name, value)].Pairwise (fun a b : Str × Str ↦ a.1 < b.1) :=
  List.pairwise_singleton _ _

def labelledEntry (line name value : Str) : LokiRow :=
  ⟨0, line, ⟨[(name, value)], sorted_single name value⟩, .empty⟩

def pairedEntry : LokiRow :=
  ⟨0, [], ⟨[([], []), (['\x1d'], [])], by decide⟩, .empty⟩

theorem madeOf_bareEntry (hline : ∀ c ∈ line, c ∈ texts) : (bareEntry line).MadeOf names texts :=
  ⟨hline, List.forall_mem_nil _⟩

theorem madeOf_labelledEntry (hline : ∀ c ∈ line, c ∈ texts) (hname : ∀ c ∈ name, c ∈ names)
    (hvalue : ∀ c ∈ value, c ∈ texts) : (labelledEntry line name value).MadeOf names texts :=
  ⟨hline, List.forall_mem_singleton.mpr ⟨hname, hvalue⟩⟩

theorem madeOf_pairedEntry (hmid : '\x1d' ∈ names) : pairedEntry.MadeOf names texts := by
  refine ⟨List.forall_mem_nil _, ?_⟩
  intro l hl
  rcases List.mem_cons.mp hl with hl | hl
  · rw [hl]
    exact ⟨List.forall_mem_nil _, List.forall_mem_nil _⟩
  · rw [List.mem_singleton.mp hl]
    exact ⟨List.forall_mem_singleton.mpr hmid, List.forall_mem_nil _⟩

theorem not_keysIdentify {r r' : LokiRow} (hkey : r.key = r'.key) (hne : ¬ r.Same r')
    (hr : r.MadeOf names texts) (hr' : r'.MadeOf names texts) : ¬ KeysIdentify names texts :=
  fun h ↦ hne (h r r' hr hr' hkey)

/-- A line that reads like a label. -/
theorem collision_line (hsep : '\x1e' ∈ texts) (hmid : '\x1d' ∈ texts) :
    ¬ KeysIdentify names texts := by
  have hkey : (bareEntry ['\x1e', '\x1d']).key = (labelledEntry [] [] []).key := rfl
  apply not_keysIdentify hkey
  · exact fun hsame ↦ List.cons_ne_nil _ _ hsame.2.1
  · exact madeOf_bareEntry (List.forall_mem_cons.mpr ⟨hsep, List.forall_mem_singleton.mpr hmid⟩)
  · exact madeOf_labelledEntry (List.forall_mem_nil _) (List.forall_mem_nil _)
      (List.forall_mem_nil _)

/-- A separator that may end the name or stand in the value. -/
theorem collision_value (hname : '\x1d' ∈ names) (hvalue : '\x1d' ∈ texts) :
    ¬ KeysIdentify names texts := by
  have hkey : (labelledEntry [] ['\x1d'] []).key = (labelledEntry [] [] ['\x1d']).key := rfl
  apply not_keysIdentify hkey
  · exact fun hsame ↦ absurd hsame.2.2 (by decide)
  · exact madeOf_labelledEntry (List.forall_mem_nil _) (List.forall_mem_singleton.mpr hname)
      (List.forall_mem_nil _)
  · exact madeOf_labelledEntry (List.forall_mem_nil _) (List.forall_mem_nil _)
      (List.forall_mem_singleton.mpr hvalue)

/-- A separator that may end the line or start the name. -/
theorem collision_name (hline : '\x1e' ∈ texts) (hname : '\x1e' ∈ names) :
    ¬ KeysIdentify names texts := by
  have hkey : (labelledEntry ['\x1e'] [] []).key = (labelledEntry [] ['\x1e'] []).key := rfl
  apply not_keysIdentify hkey
  · exact fun hsame ↦ List.cons_ne_nil _ _ hsame.2.1
  · exact madeOf_labelledEntry (List.forall_mem_singleton.mpr hline) (List.forall_mem_nil _)
      (List.forall_mem_nil _)
  · exact madeOf_labelledEntry (List.forall_mem_nil _) (List.forall_mem_singleton.mpr hname)
      (List.forall_mem_nil _)

theorem collision_pair (hsep : '\x1e' ∈ names) (hmid : '\x1d' ∈ names) :
    ¬ KeysIdentify names texts := by
  have hkey : (labelledEntry [] ['\x1d', '\x1e', '\x1d'] []).key = pairedEntry.key := rfl
  have hname : ∀ c ∈ ['\x1d', '\x1e', '\x1d'], c ∈ names := by
    rw [List.forall_mem_cons, List.forall_mem_cons, List.forall_mem_singleton]
    exact ⟨hmid, hsep, hmid⟩
  apply not_keysIdentify hkey
  · exact fun hsame ↦ absurd hsame.2.2 (by decide)
  · exact madeOf_labelledEntry (List.forall_mem_nil _) hname (List.forall_mem_nil _)
  · exact madeOf_pairedEntry hmid

/-- Keys identify entries exactly when one kind of text keeps off each of the
two separators. -/
theorem keysIdentify_iff (names texts : Set Char) :
    (KeysIdentify names texts ∧ DropsRepeatsOnly names texts) ↔
      ('\x1e' ∉ texts ∧ '\x1d' ∉ names) ∨ ('\x1d' ∉ texts ∧ '\x1e' ∉ names) := by
  constructor
  · intro h
    by_contra hnot
    rw [not_or, not_and_or, not_and_or, not_not, not_not, not_not, not_not] at hnot
    obtain ⟨hleft, hright⟩ := hnot
    rcases hleft with hsep | hmid
    · rcases hright with hmid | hsep'
      · exact collision_line hsep hmid h.1
      · exact collision_name hsep hsep' h.1
    · rcases hright with hmid' | hsep
      · exact collision_value hmid hmid' h.1
      · exact collision_pair hsep hmid h.1
  · intro h
    have hkeys : KeysIdentify names texts := by
      rcases h with h | h
      · exact keysIdentify_left h.1 h.2
      · exact keysIdentify_right h.1 h.2
    exact ⟨hkeys, hkeys.dropsRepeatsOnly⟩

/-- A forged line takes the place of an entry of another stream: the first page
is full, and the entry that the second one brings is dropped. -/
theorem entryKey_forged :
    let forged : StreamChunk := ⟨⟨[("level".toList, "info".toList)], by decide⟩,
      [⟨5, "x\x1eapp\x1dweb".toList, .empty⟩]⟩
    let entry : StreamChunk := ⟨⟨[("app".toList, "web".toList), ("level".toList, "info".toList)],
      by decide⟩, [⟨5, "x".toList, .empty⟩]⟩
    let pager := StreamPager.new "q".toList 0 10 "backward".toList 5 1
    entryKey 5 "x\x1eapp\x1dweb".toList forged.labels = entryKey 5 "x".toList entry.labels ∧
      "x\x1eapp\x1dweb".toList ≠ "x".toList ∧
      ∃ p₁ p₂ p₃ p₄ request request', pager.nextRequest = some (p₁, request) ∧
        p₁.accept [forged] = some (p₂, pageRows [forged]) ∧ p₂.done = false ∧
        p₂.nextRequest = some (p₃, request') ∧ p₃.accept [entry] = some (p₄, []) ∧
        p₄.emitted < p₄.userLimit := by
  refine ⟨rfl, by decide, _, _, _, _, _, _, rfl, rfl, rfl, rfl, rfl, by decide⟩

end Collisions

end DuckdbLoki
