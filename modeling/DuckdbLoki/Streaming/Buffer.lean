import DuckdbLoki.Machines.Run

namespace Streaming

structure Source (σ α ε : Type) where
  exhausted : σ → Bool
  fetch : σ → Option (Except ε (σ × List α))

structure Reader (σ α : Type) where
  source : σ
  buffer : List α
  offset : ℕ
deriving DecidableEq

variable {σ α β ε : Type}

namespace Source

inductive Delivers (S : Source σ α ε) : σ → List (List α) → Prop
  | done {s : σ} : S.exhausted s = true → Delivers S s []
  | fetch {s t : σ} {batch : List α} {batches : List (List α)} :
      S.exhausted s = false → S.fetch s = some (.ok (t, batch)) → Delivers S t batches →
      Delivers S s (batch :: batches)

/-- Fill a chunk up to the width. A pass of the loop hands out an element of the
buffer or fetches a batch, which may be empty; each pass takes one fuel. -/
def fill (S : Source σ α ε) (width : ℕ) (emit : α → β) :
    ℕ → Reader σ α → List β → Option (Except ε (Reader σ α × List β))
  | 0, _, _ => none
  | fuel + 1, r, chunk =>
    if width ≤ chunk.length then some (.ok (r, chunk))
    else match r.buffer[r.offset]? with
      | some x => fill S width emit fuel { r with offset := r.offset + 1 } (chunk ++ [emit x])
      | none =>
        if S.exhausted r.source then some (.ok (r, chunk))
        else match S.fetch r.source with
          | none => none
          | some (.error e) => some (.error e)
          | some (.ok (s, batch)) => fill S width emit fuel ⟨s, batch, 0⟩ chunk

/-- Where the passes of a call fetch, the last one also if its fetch fails. -/
def fetches (S : Source σ α ε) (width : ℕ) (emit : α → β) : ℕ → Reader σ α → List β → List σ
  | 0, _, _ => []
  | fuel + 1, r, chunk =>
    if width ≤ chunk.length then []
    else match r.buffer[r.offset]? with
      | some x => fetches S width emit fuel { r with offset := r.offset + 1 } (chunk ++ [emit x])
      | none =>
        if S.exhausted r.source then []
        else r.source :: match S.fetch r.source with
          | some (.ok (s, batch)) => fetches S width emit fuel ⟨s, batch, 0⟩ chunk
          | _ => []

/-- What a reader has still to hand out: the rest of its buffer, and the
batches to come. -/
structure Streams (S : Source σ α ε) (r : Reader σ α) (batches : List (List α))
    (rest : List α) : Prop where
  delivers : S.Delivers r.source batches
  rest_eq : r.buffer.drop r.offset ++ batches.flatten = rest

def Drained (S : Source σ α ε) (r : Reader σ α) : Prop :=
  S.exhausted r.source = true ∧ r.buffer.length ≤ r.offset

section Pass

/-- What a pass of the loop finds. -/
inductive Pass (S : Source σ α ε) (width : ℕ) (r : Reader σ α) (chunk : List β) : Prop
  | full : width ≤ chunk.length → Pass S width r chunk
  | pop {x : α} : chunk.length < width → r.buffer[r.offset]? = some x → Pass S width r chunk
  | drained : chunk.length < width → S.Drained r → Pass S width r chunk
  | fetch : chunk.length < width → r.buffer[r.offset]? = none → S.exhausted r.source = false →
      Pass S width r chunk

variable {S : Source σ α ε} {r : Reader σ α} {width fuel : ℕ} {emit : α → β} {chunk : List β}

theorem pass_cases (S : Source σ α ε) (width : ℕ) (r : Reader σ α) (chunk : List β) :
    S.Pass width r chunk := by
  rcases Nat.lt_or_ge chunk.length width with hroom | hfull
  · cases hget : r.buffer[r.offset]? with
    | some x => exact .pop hroom hget
    | none =>
      cases hexhausted : S.exhausted r.source with
      | true => exact .drained hroom ⟨hexhausted, List.getElem?_eq_none_iff.mp hget⟩
      | false => exact .fetch hroom hget hexhausted
  · exact .full hfull

theorem Drained.getElem?_eq (h : S.Drained r) : r.buffer[r.offset]? = none :=
  List.getElem?_eq_none_iff.mpr h.2

theorem fill_full (h : width ≤ chunk.length) :
    S.fill width emit (fuel + 1) r chunk = some (.ok (r, chunk)) := if_pos h

theorem fill_pop {x : α} (hroom : chunk.length < width) (hget : r.buffer[r.offset]? = some x) :
    S.fill width emit (fuel + 1) r chunk =
      S.fill width emit fuel { r with offset := r.offset + 1 } (chunk ++ [emit x]) := by
  rw [Source.fill, if_neg (Nat.not_le.mpr hroom), hget]

theorem Drained.fill (h : S.Drained r) :
    S.fill width emit (fuel + 1) r chunk = some (.ok (r, chunk)) := by
  rw [Source.fill, h.getElem?_eq]
  dsimp only
  rw [if_pos h.1, ite_self]

theorem fill_fetch (hroom : chunk.length < width) (hget : r.buffer[r.offset]? = none)
    (ho : S.exhausted r.source = false) :
    S.fill width emit (fuel + 1) r chunk = (S.fetch r.source).bind (fun fetched ↦
      match fetched with
      | .error e => some (.error e)
      | .ok (s, batch) => S.fill width emit fuel ⟨s, batch, 0⟩ chunk) := by
  rw [Source.fill, if_neg (Nat.not_le.mpr hroom), hget]
  dsimp only
  rw [ho, if_neg Bool.false_ne_true]
  rcases S.fetch r.source with _ | e | ⟨s, batch⟩ <;> rfl

theorem fetches_full (h : width ≤ chunk.length) :
    S.fetches width emit (fuel + 1) r chunk = [] := if_pos h

theorem fetches_pop {x : α} (hroom : chunk.length < width)
    (hget : r.buffer[r.offset]? = some x) :
    S.fetches width emit (fuel + 1) r chunk =
      S.fetches width emit fuel { r with offset := r.offset + 1 } (chunk ++ [emit x]) := by
  rw [Source.fetches, if_neg (Nat.not_le.mpr hroom), hget]

theorem Drained.fetches (h : S.Drained r) : S.fetches width emit (fuel + 1) r chunk = [] := by
  rw [Source.fetches, h.getElem?_eq]
  dsimp only
  rw [if_pos h.1, ite_self]

theorem fetches_fetch (hroom : chunk.length < width) (hget : r.buffer[r.offset]? = none)
    (ho : S.exhausted r.source = false) :
    S.fetches width emit (fuel + 1) r chunk = r.source :: match S.fetch r.source with
      | some (.ok (s, batch)) => S.fetches width emit fuel ⟨s, batch, 0⟩ chunk
      | _ => [] := by
  rw [Source.fetches, if_neg (Nat.not_le.mpr hroom), hget]
  dsimp only
  rw [ho, if_neg Bool.false_ne_true]

end Pass

section Fill

variable {S : Source σ α ε} {r r' : Reader σ α} {batches : List (List α)} {rest : List α}
  {width fuel : ℕ} {emit : α → β} {chunk chunk' : List β}

theorem Streams.pop {x : α} (h : S.Streams r batches rest) (hx : r.buffer[r.offset]? = some x) :
    ∃ rest', rest = x :: rest' ∧
      S.Streams { r with offset := r.offset + 1 } batches rest' := by
  obtain ⟨hlt, hget⟩ := List.getElem?_eq_some_iff.mp hx
  refine ⟨_, ?_, h.delivers, rfl⟩
  rw [← h.rest_eq, List.drop_eq_getElem_cons hlt, hget]
  exact List.cons_append

theorem Streams.refill {s : σ} {batch : List α} (h : S.Streams r (batch :: batches) rest)
    (hempty : r.buffer[r.offset]? = none) (hfetch : S.fetch r.source = some (.ok (s, batch))) :
    S.Streams ⟨s, batch, 0⟩ batches rest := by
  obtain ⟨hdelivers, hrest⟩ := h
  cases hdelivers with
  | fetch _ hfetch' hdelivers =>
    rw [hfetch] at hfetch'
    obtain ⟨hs, _⟩ := Prod.mk.inj (Except.ok.inj (Option.some.inj hfetch'))
    refine ⟨hs ▸ hdelivers, ?_⟩
    rw [← hrest, List.drop_eq_nil_of_le (List.getElem?_eq_none_iff.mp hempty)]
    rfl

theorem Streams.exhausted_iff (h : S.Streams r batches rest) :
    S.exhausted r.source = true ↔ batches = [] := by
  obtain ⟨hdelivers, _⟩ := h
  cases hdelivers with
  | done hexhausted => exact iff_of_true hexhausted rfl
  | fetch hopen _ _ =>
    rw [hopen]
    exact iff_of_false Bool.false_ne_true (List.cons_ne_nil _ _)

theorem Streams.drained (h : S.Streams r batches rest) (hdrained : S.Drained r) : rest = [] := by
  rw [← h.rest_eq, List.drop_eq_nil_of_le hdrained.2, h.exhausted_iff.mp hdrained.1]
  rfl

theorem Streams.fill_stays {result : Except ε (Reader σ α × List β)} (h : S.Streams r batches rest)
    (hresult : some (.ok (r, chunk)) = some result)
    (hdry : chunk.length < width → S.Drained r ∧ rest = []) :
    ∃ r' batches' given left, result = .ok (r', chunk ++ given.map emit) ∧
      rest = given ++ left ∧ S.Streams r' batches' left ∧ batches'.length ≤ batches.length ∧
      (chunk ++ given.map emit).length ≤ max width chunk.length ∧
      ((chunk ++ given.map emit).length < width → S.Drained r' ∧ left = []) := by
  have hstay : chunk ++ ([] : List α).map emit = chunk := List.append_nil chunk
  refine ⟨r, batches, [], rest, ?_, rfl, h, Nat.le_refl _, ?_, ?_⟩
  · rw [hstay]
    exact (Option.some.inj hresult).symm
  · rw [hstay]
    exact Nat.le_max_right _ _
  · rw [hstay]
    exact hdry

/-- What one call does: it hands out a stretch of what is left, in order, and
comes short only where nothing is left. -/
theorem Streams.fill {result : Except ε (Reader σ α × List β)} (h : S.Streams r batches rest)
    (hfill : S.fill width emit fuel r chunk = some result) :
    ∃ r' batches' given left, result = .ok (r', chunk ++ given.map emit) ∧
      rest = given ++ left ∧ S.Streams r' batches' left ∧ batches'.length ≤ batches.length ∧
      (chunk ++ given.map emit).length ≤ max width chunk.length ∧
      ((chunk ++ given.map emit).length < width → S.Drained r' ∧ left = []) := by
  induction fuel generalizing r batches rest chunk with
  | zero => cases hfill
  | succ fuel ih =>
    cases S.pass_cases width r chunk with
    | full hfull =>
      rw [fill_full hfull] at hfill
      apply h.fill_stays hfill
      intro hshort
      exact absurd hfull (Nat.not_le.mpr hshort)
    | @pop x hroom hget =>
      rw [fill_pop hroom hget] at hfill
      obtain ⟨rest', hrest, hpop⟩ := h.pop hget
      obtain ⟨r', batches', given, left, hresult, hsplit, hstreams, hle, hwidth, hshort⟩ :=
        ih hpop hfill
      rw [← List.append_cons, ← List.map_cons] at hresult hwidth hshort
      refine ⟨r', batches', x :: given, left, hresult, ?_, hstreams, hle, ?_, hshort⟩
      · rw [hrest, hsplit]
        rfl
      · have hlen : (chunk ++ [emit x]).length = chunk.length + 1 := List.length_append
        rw [hlen] at hwidth
        omega
    | drained hroom hdrained =>
      rw [hdrained.fill] at hfill
      exact h.fill_stays hfill (fun _ ↦ ⟨hdrained, h.drained hdrained⟩)
    | fetch hroom hget ho =>
      rw [fill_fetch hroom hget ho] at hfill
      cases h.delivers with
      | done hdone => exact absurd (hdone.symm.trans ho) (by decide)
      | fetch _ hfetch _ =>
        rw [hfetch] at hfill
        obtain ⟨r', batches', given, left, hresult, hsplit, hstreams, hle, hwidth⟩ :=
          ih (h.refill hget hfetch) hfill
        exact ⟨r', batches', given, left, hresult, hsplit, hstreams, Nat.le_succ_of_le hle,
          hwidth⟩

/-- The elements and the batches that one call can take bound its passes. -/
theorem Streams.fill_isSome (h : S.Streams r batches rest)
    (hfuel : width - chunk.length + batches.length < fuel) :
    (S.fill width emit fuel r chunk).isSome = true := by
  induction fuel generalizing r batches rest chunk with
  | zero => exact absurd hfuel (Nat.not_lt_zero _)
  | succ fuel ih =>
    cases S.pass_cases width r chunk with
    | full hfull =>
      rw [fill_full hfull]
      rfl
    | pop hroom hget =>
      rw [fill_pop hroom hget]
      obtain ⟨rest', _, hpop⟩ := h.pop hget
      apply ih hpop
      rw [List.length_append, List.length_singleton]
      omega
    | drained _ hdrained =>
      rw [hdrained.fill]
      rfl
    | fetch hroom hget ho =>
      rw [fill_fetch hroom hget ho]
      cases h.delivers with
      | done hdone => exact absurd (hdone.symm.trans ho) (by decide)
      | fetch _ hfetch _ =>
        rw [hfetch]
        apply ih (h.refill hget hfetch)
        rw [List.length_cons] at hfuel
        omega

end Fill

section Calls

def call (S : Source σ α ε) (width : ℕ) (emit : α → β) (r : Reader σ α) (fuel : ℕ) :
    Option (Reader σ α × List β) := (S.fill width emit fuel r []).bind Except.toOption

def handedOut {δ : Type} (calls : List (Machines.Transition δ ℕ (List β))) : List β :=
  calls.flatMap Machines.Transition.event

theorem handedOut_append {δ : Type} (xs ys : List (Machines.Transition δ ℕ (List β))) :
    handedOut (xs ++ ys) = handedOut xs ++ handedOut ys := List.flatMap_append

variable {S : Source σ α ε} {r r' : Reader σ α} {batches : List (List α)} {rest : List α}
  {width fuel : ℕ} {emit : α → β} {chunk : List β}
  {calls : List (Machines.Transition (Reader σ α) ℕ (List β))}

theorem Streams.call (h : S.Streams r batches rest)
    (hcall : S.call width emit r fuel = some (r', chunk)) :
    ∃ batches' given left, chunk = given.map emit ∧ rest = given ++ left ∧
      S.Streams r' batches' left ∧ batches'.length ≤ batches.length ∧ chunk.length ≤ width ∧
      (chunk.length < width → S.Drained r' ∧ left = []) := by
  obtain ⟨result, hfill, hresult⟩ := Option.bind_eq_some_iff.mp hcall
  obtain ⟨r'', batches', given, left, hok, hsplit, hstreams, hle, hwidth, hshort⟩ := h.fill hfill
  rw [hok] at hresult
  obtain ⟨hr, hchunk⟩ := Prod.mk.inj (Option.some.inj hresult)
  rw [List.nil_append] at hchunk
  rw [List.nil_append, hchunk, List.length_nil, Nat.max_zero] at hwidth
  rw [List.nil_append, hchunk, hr] at hshort
  exact ⟨batches', given, left, hchunk.symm, hsplit, hr ▸ hstreams, hle, hwidth, hshort⟩

theorem Drained.call (h : S.Drained r) (hcall : S.call width emit r fuel = some (r', chunk)) :
    r' = r ∧ chunk = [] := by
  unfold Source.call at hcall
  cases fuel with
  | zero => cases hcall
  | succ fuel =>
    rw [h.fill] at hcall
    obtain ⟨hr, hchunk⟩ := Prod.mk.inj (Option.some.inj hcall)
    exact ⟨hr.symm, hchunk.symm⟩

/-- What a run of calls has handed out and what is left are the whole. -/
theorem Streams.run (h : S.Streams r batches rest)
    (hrun : Machines.Run (S.call width emit) r calls r') :
    ∃ batches' left, S.Streams r' batches' left ∧ batches'.length ≤ batches.length ∧
      handedOut calls ++ left.map emit = rest.map emit := by
  induction hrun with
  | nil => exact ⟨batches, rest, h, Nat.le_refl _, rfl⟩
  | @snoc calls r₁ r₂ fuel chunk _ hlast ih =>
    obtain ⟨batches₁, left₁, hstreams₁, hle₁, hsplit₁⟩ := ih
    obtain ⟨batches₂, given, left₂, hchunk, hleft, hstreams₂, hle₂, _⟩ := hstreams₁.call hlast
    refine ⟨batches₂, left₂, hstreams₂, Nat.le_trans hle₂ hle₁, ?_⟩
    rw [← hsplit₁, hleft, List.map_append, handedOut_append, hchunk, List.append_assoc]
    simp [handedOut]

theorem Drained.run (h : S.Drained r) (hrun : Machines.Run (S.call width emit) r calls r') :
    r' = r ∧ ∀ x ∈ calls, x.event = [] ∧ x.after = r := by
  induction hrun with
  | nil => exact ⟨rfl, nofun⟩
  | snoc _ hlast ih =>
    obtain ⟨hr, hcalls⟩ := ih
    rw [hr] at hlast
    obtain ⟨hr', hchunk⟩ := h.call hlast
    refine ⟨hr', List.forall_mem_append.mpr ⟨hcalls, List.forall_mem_singleton.mpr ?_⟩⟩
    exact ⟨hchunk, hr'⟩

theorem Streams.chunk_le (h : S.Streams r batches rest)
    (hrun : Machines.Run (S.call width emit) r calls r') :
    ∀ x ∈ calls, x.event.length ≤ width := by
  intro x hx
  obtain ⟨xs, ys, hsplit⟩ := List.append_of_mem hx
  rw [hsplit] at hrun
  obtain ⟨hbefore, hvalid, _⟩ := hrun.around
  obtain ⟨_, _, hstreams, _, _⟩ := h.run hbefore
  obtain ⟨_, _, _, _, _, _, _, hwidth, _⟩ := hstreams.call hvalid
  exact hwidth

/-- An empty chunk ends the stream: everything has been handed out, and the
calls that follow leave the reader as it is. -/
theorem Streams.empty_chunk {xs ys : List (Machines.Transition (Reader σ α) ℕ (List β))}
    {x : Machines.Transition (Reader σ α) ℕ (List β)} (h : S.Streams r batches rest)
    (hrun : Machines.Run (S.call width emit) r (xs ++ x :: ys) r') (hwidth : 0 < width)
    (hempty : x.event = []) :
    S.Drained x.after ∧ handedOut xs = rest.map emit ∧
      ∀ y ∈ ys, y.event = [] ∧ y.after = x.after := by
  obtain ⟨hbefore, hvalid, hafter⟩ := hrun.around
  obtain ⟨_, left, hstreams, _, hsplit⟩ := h.run hbefore
  obtain ⟨_, given, left', hchunk, hleft, _, _, _, hshort⟩ := hstreams.call hvalid
  rw [hempty] at hshort
  obtain ⟨hdrained, hnil⟩ := hshort hwidth
  refine ⟨hdrained, ?_, (hdrained.run hafter).2⟩
  have hgiven : given = [] := List.map_eq_nil_iff.mp (hchunk.symm.trans hempty)
  rw [← hsplit, hleft, hgiven, hnil]
  exact (List.append_nil _).symm

theorem Streams.all_handed_out (h : S.Streams r batches rest)
    (hrun : Machines.Run (S.call width emit) r calls r') (hwidth : 0 < width)
    (hends : ∃ x ∈ calls, x.event = []) : handedOut calls = rest.map emit := by
  obtain ⟨x, hx, hempty⟩ := hends
  obtain ⟨xs, ys, hsplit⟩ := List.append_of_mem hx
  rw [hsplit] at hrun
  obtain ⟨_, hbefore, hafter⟩ := h.empty_chunk hrun hwidth hempty
  have hnone : handedOut (x :: ys) = [] := by
    apply List.flatMap_eq_nil_iff.mpr
    exact List.forall_mem_cons.mpr ⟨hempty, fun y hy ↦ (hafter y hy).1⟩
  rw [hsplit, handedOut_append, hnone, List.append_nil, hbefore]

theorem length_le_handedOut (h : ∀ x ∈ calls, x.event ≠ []) :
    calls.length ≤ (handedOut calls).length := by
  induction calls with
  | nil => exact Nat.le_refl _
  | cons x calls ih =>
    obtain ⟨hx, hcalls⟩ := List.forall_mem_cons.mp h
    have hpos : 0 < x.event.length := List.length_pos_of_ne_nil hx
    have hrest := ih hcalls
    rw [handedOut, List.flatMap_cons, List.length_append, List.length_cons]
    rw [handedOut] at hrest
    omega

/-- The stream ends within as many calls as it has elements, and one. -/
theorem Streams.ends (h : S.Streams r batches rest)
    (hrun : Machines.Run (S.call width emit) r calls r') (hmany : rest.length < calls.length) :
    ∃ x ∈ calls, x.event = [] := by
  by_contra hnone
  have hcalls := length_le_handedOut (fun x hx hempty ↦ hnone ⟨x, hx, hempty⟩)
  obtain ⟨_, left, _, _, hsplit⟩ := h.run hrun
  have hlen := congrArg List.length hsplit
  rw [List.length_append, List.length_map, List.length_map] at hlen
  omega

theorem Streams.next (h : S.Streams r batches rest)
    (hrun : Machines.Run (S.call width emit) r calls r') (hfuel : width + batches.length < fuel) :
    ∃ next, S.call width emit r' fuel = some next := by
  obtain ⟨batches', _, hstreams, hle, _⟩ := h.run hrun
  have hsome : (S.fill width emit fuel r' []).isSome = true := by
    apply hstreams.fill_isSome
    rw [List.length_nil]
    omega
  obtain ⟨result, hresult⟩ := Option.isSome_iff_exists.mp hsome
  obtain ⟨r'', _, given, _, hok, _⟩ := hstreams.fill hresult
  refine ⟨(r'', [] ++ given.map emit), ?_⟩
  rw [Source.call, hresult, hok]
  rfl

end Calls

section Rules

variable {S : Source σ α ε} {r r' : Reader σ α} {width fuel : ℕ} {emit : α → β}
  {chunk chunk' : List β} {calls : List (Machines.Transition (Reader σ α) ℕ (List β))}

inductive Outcome (S : Source σ α ε) (width : ℕ) (I : Reader σ α → List β → Prop) :
    Except ε (Reader σ α × List β) → Prop
  | full {r : Reader σ α} {chunk : List β} : I r chunk → width ≤ chunk.length →
      Outcome S width I (.ok (r, chunk))
  | drained {r : Reader σ α} {chunk : List β} : I r chunk → S.Drained r →
      Outcome S width I (.ok (r, chunk))
  | failed {r : Reader σ α} {chunk : List β} {e : ε} : I r chunk →
      S.fetch r.source = some (.error e) → Outcome S width I (.error e)

/-- The rule of the loop: what handing out an element and fetching a batch both
keep holds where the call ends. -/
theorem fill_outcome {I : Reader σ α → List β → Prop} {result : Except ε (Reader σ α × List β)}
    (hpop : ∀ r chunk x, I r chunk → chunk.length < width → r.buffer[r.offset]? = some x →
      I { r with offset := r.offset + 1 } (chunk ++ [emit x]))
    (hfetch : ∀ r chunk s batch, I r chunk → r.buffer[r.offset]? = none →
      S.exhausted r.source = false → S.fetch r.source = some (.ok (s, batch)) →
      I ⟨s, batch, 0⟩ chunk)
    (h : I r chunk) (hfill : S.fill width emit fuel r chunk = some result) :
    S.Outcome width I result := by
  induction fuel generalizing r chunk with
  | zero => cases hfill
  | succ fuel ih =>
    cases S.pass_cases width r chunk with
    | full hfull =>
      rw [fill_full hfull] at hfill
      exact Option.some.inj hfill ▸ .full h hfull
    | pop hroom hget =>
      rw [fill_pop hroom hget] at hfill
      exact ih (hpop r chunk _ h hroom hget) hfill
    | drained _ hdrained =>
      rw [hdrained.fill] at hfill
      exact Option.some.inj hfill ▸ .drained h hdrained
    | fetch hroom hget ho =>
      rw [fill_fetch hroom hget ho] at hfill
      obtain ⟨fetched, hresult, hfill⟩ := Option.bind_eq_some_iff.mp hfill
      cases fetched with
      | error e => exact Option.some.inj hfill ▸ .failed h hresult
      | ok fetched => exact ih (hfetch r chunk _ _ h hget ho hresult) hfill

theorem fill_induction {I : Reader σ α → List β → Prop}
    (hpop : ∀ r chunk x, I r chunk → chunk.length < width → r.buffer[r.offset]? = some x →
      I { r with offset := r.offset + 1 } (chunk ++ [emit x]))
    (hfetch : ∀ r chunk s batch, I r chunk → r.buffer[r.offset]? = none →
      S.exhausted r.source = false → S.fetch r.source = some (.ok (s, batch)) →
      I ⟨s, batch, 0⟩ chunk)
    (h : I r chunk) (hfill : S.fill width emit fuel r chunk = some (.ok (r', chunk'))) :
    I r' chunk' := by
  cases fill_outcome hpop hfetch h hfill with
  | full h _ => exact h
  | drained h _ => exact h

theorem fill_short (hfill : S.fill width emit fuel r chunk = some (.ok (r', chunk')))
    (hshort : chunk'.length < width) : S.Drained r' := by
  have houtcome := fill_outcome (I := fun _ _ ↦ True) (fun _ _ _ _ _ _ ↦ trivial)
    (fun _ _ _ _ _ _ _ _ ↦ trivial) trivial hfill
  cases houtcome with
  | full _ hfull => exact absurd hfull (Nat.not_le.mpr hshort)
  | drained _ hdrained => exact hdrained

/-- What the sources of a call log, with what is asked where it fetches last. -/
theorem fill_fetches {γ : Type} {I : Reader σ α → List β → Prop} {log ask : σ → List γ}
    (hlog : ∀ s t batch, S.fetch s = some (.ok (t, batch)) → log t = log s ++ ask s)
    (hpop : ∀ r chunk x, I r chunk → chunk.length < width → r.buffer[r.offset]? = some x →
      I { r with offset := r.offset + 1 } (chunk ++ [emit x]))
    (hfetch : ∀ r chunk s batch, I r chunk → r.buffer[r.offset]? = none →
      S.exhausted r.source = false → S.fetch r.source = some (.ok (s, batch)) →
      I ⟨s, batch, 0⟩ chunk)
    (h : I r chunk) :
    ∃ r' chunk', I r' chunk' ∧
      (log r.source ++ (S.fetches width emit fuel r chunk).flatMap ask = log r'.source ∨
        S.exhausted r'.source = false ∧
          log r.source ++ (S.fetches width emit fuel r chunk).flatMap ask =
            log r'.source ++ ask r'.source) := by
  induction fuel generalizing r chunk with
  | zero => exact ⟨r, chunk, h, Or.inl (List.append_nil _)⟩
  | succ fuel ih =>
    cases S.pass_cases width r chunk with
    | full hfull =>
      rw [fetches_full hfull]
      exact ⟨r, chunk, h, Or.inl (List.append_nil _)⟩
    | pop hroom hget =>
      rw [fetches_pop hroom hget]
      exact ih (hpop r chunk _ h hroom hget)
    | drained _ hdrained =>
      rw [hdrained.fetches]
      exact ⟨r, chunk, h, Or.inl (List.append_nil _)⟩
    | fetch hroom hget ho =>
      rw [fetches_fetch hroom hget ho, List.flatMap_cons]
      cases hresult : S.fetch r.source with
      | none => exact ⟨r, chunk, h, Or.inr ⟨ho, by simp⟩⟩
      | some fetched =>
        cases fetched with
        | error e => exact ⟨r, chunk, h, Or.inr ⟨ho, by simp⟩⟩
        | ok fetched =>
          have hnext := ih (hfetch r chunk _ _ h hget ho hresult)
          dsimp only at hnext ⊢
          rwa [hlog _ _ _ hresult, List.append_assoc] at hnext

/-- A call that succeeds has logged what was asked where it fetched. -/
theorem fill_log {γ : Type} {log ask : σ → List γ}
    (hlog : ∀ s t batch, S.fetch s = some (.ok (t, batch)) → log t = log s ++ ask s)
    (hfill : S.fill width emit fuel r chunk = some (.ok (r', chunk'))) :
    log r'.source = log r.source ++ (S.fetches width emit fuel r chunk).flatMap ask := by
  have hstay : ∀ {r : Reader σ α} {chunk : List β},
      some (.ok (r, chunk)) = (some (.ok (r', chunk')) : Option (Except ε _)) →
      log r'.source = log r.source ++ [] := by
    intro r chunk heq
    rw [(Prod.mk.inj (Except.ok.inj (Option.some.inj heq))).1, List.append_nil]
  induction fuel generalizing r chunk with
  | zero => cases hfill
  | succ fuel ih =>
    cases S.pass_cases width r chunk with
    | full hfull =>
      rw [fill_full hfull] at hfill
      rw [fetches_full hfull]
      exact hstay hfill
    | pop hroom hget =>
      rw [fill_pop hroom hget] at hfill
      rw [fetches_pop hroom hget]
      exact ih hfill
    | drained _ hdrained =>
      rw [hdrained.fill] at hfill
      rw [hdrained.fetches]
      exact hstay hfill
    | fetch hroom hget ho =>
      rw [fill_fetch hroom hget ho] at hfill
      obtain ⟨fetched, hresult, hfill⟩ := Option.bind_eq_some_iff.mp hfill
      rw [fetches_fetch hroom hget ho, hresult, List.flatMap_cons]
      cases fetched with
      | error e => cases hfill
      | ok fetched =>
        dsimp only at hfill ⊢
        rw [ih hfill, hlog _ _ _ hresult, List.append_assoc]

/-- The same over a run of calls, for what has been handed out so far. -/
theorem run_induction {I : Reader σ α → List β → Prop}
    (hpop : ∀ r out x, I r out → r.buffer[r.offset]? = some x →
      I { r with offset := r.offset + 1 } (out ++ [emit x]))
    (hfetch : ∀ r out s batch, I r out → r.buffer[r.offset]? = none →
      S.exhausted r.source = false → S.fetch r.source = some (.ok (s, batch)) →
      I ⟨s, batch, 0⟩ out)
    (h : I r []) (hrun : Machines.Run (S.call width emit) r calls r') :
    I r' (handedOut calls) := by
  induction hrun with
  | nil => exact h
  | @snoc calls r₁ r₂ fuel chunk _ hlast ih =>
    obtain ⟨result, hfill, hresult⟩ := Option.bind_eq_some_iff.mp hlast
    cases result with
    | error e => cases hresult
    | ok next =>
      rw [Option.some.inj hresult] at hfill
      have hcall : I r₂ (handedOut calls ++ chunk) := by
        refine fill_induction (I := fun r chunk ↦ I r (handedOut calls ++ chunk)) ?_ ?_
          (by rw [List.append_nil]; exact ih) hfill
        · intro r chunk x hI _ hx
          rw [← List.append_assoc]
          exact hpop r _ x hI hx
        · exact fun r chunk ↦ hfetch r _
      rw [handedOut_append]
      simpa [handedOut] using hcall

/-- A run fetches the first of the batches; what counts the fetches counts them. -/
theorem Delivers.run {batches : List (List α)} {fetched : σ → ℕ}
    (hfetched : ∀ s t batch, S.fetch s = some (.ok (t, batch)) → fetched t = fetched s + 1)
    (h : S.Delivers r.source batches) (hrun : Machines.Run (S.call width emit) r calls r') :
    ∃ left, S.Delivers r'.source left ∧
      fetched r'.source + left.length = fetched r.source + batches.length := by
  refine run_induction (I := fun r' _ ↦ ∃ left, S.Delivers r'.source left ∧
    fetched r'.source + left.length = fetched r.source + batches.length) ?_ ?_ ⟨_, h, rfl⟩ hrun
  · exact fun _ _ _ hleft _ ↦ hleft
  · intro r _ s batch hleft _ hopen hfetch
    obtain ⟨left, hdelivers, hcount⟩ := hleft
    cases hdelivers with
    | done hdone => rw [hdone] at hopen; cases hopen
    | @fetch _ _ _ rest _ hfetch' hrest =>
      have hone := hfetched _ _ _ hfetch
      rw [hfetch'] at hfetch
      obtain ⟨rfl, _⟩ := Prod.mk.inj (Except.ok.inj (Option.some.inj hfetch))
      refine ⟨rest, hrest, ?_⟩
      rw [List.length_cons] at hcount
      dsimp only
      omega

theorem run_chunk_le (hrun : Machines.Run (S.call width emit) r calls r') :
    ∀ x ∈ calls, x.event.length ≤ width := by
  intro x hx
  obtain ⟨xs, ys, hsplit⟩ := List.append_of_mem hx
  rw [hsplit] at hrun
  obtain ⟨_, hstep, _⟩ := hrun.around
  obtain ⟨result, hfill, hresult⟩ := Option.bind_eq_some_iff.mp hstep
  cases result with
  | error e => cases hresult
  | ok next =>
    rw [Option.some.inj hresult] at hfill
    have hempty : ([] : List β).length ≤ width := Nat.zero_le width
    refine fill_induction (I := fun _ chunk ↦ chunk.length ≤ width) ?_ (fun _ _ _ _ h _ _ _ ↦ h)
      hempty hfill
    intro _ chunk _ _ hlt _
    rw [List.length_append]
    exact hlt

theorem run_drained (hrun : Machines.Run (S.call width emit) r calls r') (hwidth : 0 < width)
    (hends : ∃ x ∈ calls, x.event = []) : S.Drained r' := by
  obtain ⟨x, hx, hempty⟩ := hends
  obtain ⟨xs, ys, hsplit⟩ := List.append_of_mem hx
  rw [hsplit] at hrun
  obtain ⟨_, hvalid, hafter⟩ := hrun.around
  obtain ⟨result, hfill, hresult⟩ := Option.bind_eq_some_iff.mp hvalid
  cases result with
  | error e => cases hresult
  | ok next =>
    rw [Option.some.inj hresult, hempty] at hfill
    have hdrained := fill_short hfill hwidth
    exact (hdrained.run hafter).1 ▸ hdrained

end Rules

end Source

end Streaming
