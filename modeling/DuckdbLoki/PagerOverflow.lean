import DuckdbLoki.PagerSafety
import DuckdbLoki.StreamsResponse

namespace DuckdbLoki

section Timestamps

theorem stoll_inInt64 {s : Str} {n : ℤ} (h : stoll s = some n) : InInt64 n := by
  unfold stoll at h
  dsimp only at h
  split_ifs at h
  · obtain ⟨hrange, heq⟩ := checked_eq_some.mp h
    exact heq ▸ hrange
  · obtain ⟨hrange, heq⟩ := checked_eq_some.mp h
    exact heq ▸ hrange

theorem parseEntry_inInt64 {pair : Json} {e : StreamEntry} (h : parseEntry pair = some e) :
    InInt64 e.tsNs := by
  unfold parseEntry at h
  split at h
  · cases h
  · obtain ⟨ns, hns, heq⟩ := Option.map_eq_some_iff.mp h
    rw [← heq]
    exact stoll_inInt64 hns

theorem parseStreamsResponse_inInt64 {read : Str → Option Json} {body : Str}
    {page : List StreamChunk} (h : parseStreamsResponse read body = .ok page) :
    ∀ r ∈ pageRows page, InInt64 r.tsNs := by
  obtain ⟨_, data, _, _, hpage⟩ := parseStreamsResponse_eq_ok h
  intro r hr
  obtain ⟨c, hc, hr⟩ := List.mem_flatMap.mp hr
  rw [hpage] at hc
  obtain ⟨elem, _, helem⟩ := List.mem_map.mp hc
  rw [← helem] at hr
  obtain ⟨e, he, hre⟩ := List.mem_map.mp hr
  obtain ⟨pair, _, hpair⟩ := List.mem_filterMap.mp he
  rw [← hre]
  exact parseEntry_inInt64 hpair

end Timestamps

theorem foldlM_isSome_iff {σ α : Type} {f : σ → α → Option σ} {s : σ} {l : List α} :
    (l.foldlM f s).isSome = true ↔ ∀ xs x ys t, l = xs ++ x :: ys → xs.foldlM f s = some t →
      (f t x).isSome = true := by
  constructor
  · intro h xs x ys t hl ht
    rw [hl, List.foldlM_append, ht, Option.bind_eq_bind, Option.bind_some, List.foldlM_cons] at h
    cases hx : f t x with
    | none =>
      rw [hx] at h
      cases h
    | some u => rfl
  · intro h
    induction l using List.reverseRecOn with
    | nil => rfl
    | append_singleton l x ih =>
      have hinit : (l.foldlM f s).isSome = true := by
        apply ih
        intro xs y ys t hl
        apply h xs y (ys ++ [x]) t
        rw [hl, List.append_assoc, List.cons_append]
      obtain ⟨t, ht⟩ := Option.isSome_iff_exists.mp hinit
      obtain ⟨u, hu⟩ := Option.isSome_iff_exists.mp (h l x [] t rfl ht)
      rw [List.foldlM_append, ht, Option.bind_eq_bind, Option.bind_some, List.foldlM_cons, hu]
      rfl

namespace StreamPager

open Paging

def turn (p : StreamPager) (page : List StreamChunk) : Option StreamPager :=
  if p.done then some p
  else do
    let (p₁, _) ← p.nextRequest
    let (p₂, _) ← p₁.accept page
    some p₂

/-- The fetch loop on a list of pages. There is no result when a sum
overflows. -/
def takeIn (p : StreamPager) (pages : List (List StreamChunk)) : Option StreamPager :=
  pages.foldlM turn p

/-- A full page of a backward scan that leaves the limit unmet and lies at the
last nanosecond there is. -/
structure AtMaximum (p : StreamPager) (page : List StreamChunk) : Prop where
  backward : p.backward = true
  full : min (p.userLimit - p.emitted + p.boundaryKeys.card) p.perRequestCap ≤
    (pageRows page).length
  unmet : p.emitted + ((pageRows page).filter (fun r ↦ r.key ∉ p.boundaryKeys)).length <
    p.userLimit
  last : ∀ r ∈ pageRows page, r.tsNs = int64Max

section Turn

variable {p p' : StreamPager} {page : List StreamChunk}

theorem requested_eq (hp : p.Valid) :
    p.requested = min (p.userLimit - p.emitted + p.boundaryKeys.card) p.perRequestCap := by
  have h₁ := hp.emitted_nonneg
  have h₂ := hp.emitted_le
  have h₃ := hp.cap_pos
  simp only [requested, Plan.want, plan, reader]
  omega

theorem turn_open (hp : p.Valid) (ho : p.done = false) :
    p.turn page = (p.awaiting.accept page).map Prod.fst := by
  unfold turn
  rw [ho, if_neg Bool.false_ne_true, nextRequest_eq hp]
  change (p.awaiting.accept page).bind (fun x ↦ some x.1) = _
  rw [Option.map_eq_bind]
  rfl

theorem turn_valid (hp : p.Valid) (h : p.turn page = some p') : p'.Valid := by
  cases hd : p.done with
  | true =>
    unfold turn at h
    rw [hd, if_pos rfl] at h
    exact Option.some.inj h ▸ hp
  | false =>
    rw [turn_open hp hd] at h
    obtain ⟨⟨p'', rows⟩, haccept, heq⟩ := Option.map_eq_some_iff.mp h
    have hq := hp.awaiting
    exact heq ▸ accept_valid hq hd rfl haccept

theorem extremeNs_mem (hp : p.Valid) (hpage : pageRows page ≠ []) :
    ∃ r ∈ pageRows page, r.tsNs = (p.scanPage page).extremeNs := by
  have hst := scanPage_spec hp.emitted_nonneg hp.emitted_le page
  obtain ⟨⟨r, hr, hlast⟩, _⟩ := Plan.last_spec (P := p.plan) hpage
  rw [← hst.extreme] at hlast
  exact ⟨r, hr, rank_inj.mp hlast⟩

theorem extremeNs_le (hp : p.Valid) (hb : p.backward = true) {r : LokiRow}
    (hr : r ∈ pageRows page) : (p.scanPage page).extremeNs ≤ r.tsNs := by
  have hst := scanPage_spec hp.emitted_nonneg hp.emitted_le page
  have hle := (Plan.last_spec (P := p.plan) (List.ne_nil_of_mem hr)).2 r hr
  rw [← hst.extreme] at hle
  simp only [plan, rank, hb, if_true] at hle
  omega

/-- The pager goes on past a full page that leaves the limit unmet, and only
then forms its next cursor. -/
theorem accept_eq_none_iff_nextCursor (hp : p.Valid) :
    p.awaiting.accept page = none ↔
      (p.requested ≤ (pageRows page).length ∧
        p.emitted + ((pageRows page).filter (fun r ↦ r.key ∉ p.boundaryKeys)).length <
          p.userLimit) ∧
        p.awaiting.nextCursor (p.awaiting.scanPage page).extremeNs = none := by
  have hq := hp.awaiting
  have hst := scanPage_spec hq.emitted_nonneg hq.emitted_le page
  have hcount := hst.pageCount
  have hem := hst.emitted
  have hlen : (p.awaiting.scanPage page).rows.length =
      min (p.userLimit.toNat - p.emitted.toNat)
        ((pageRows page).filter (fun r ↦ r.key ∉ p.boundaryKeys)).length := by
    rw [hst.rows, Plan.fresh, List.length_take]
    rfl
  have hreq : p.awaiting.requestedThisPage = p.requested := rfl
  have h₁ := hp.emitted_nonneg
  have h₂ := hp.emitted_le
  have h₃ : p.awaiting.emitted = p.emitted := rfl
  have h₄ : p.awaiting.userLimit = p.userLimit := rfl
  simp only [StreamPager.accept]
  by_cases hend : (p.awaiting.scanPage page).pageCount < p.awaiting.requestedThisPage ∨
      (p.awaiting.scanPage page).emitted ≥ p.awaiting.userLimit
  · rw [if_pos hend]
    apply iff_of_false (Option.some_ne_none _)
    intro hopen
    omega
  · rw [if_neg hend, Option.map_eq_none_iff]
    exact (and_iff_right (by omega)).symm

/-- The sum in `Accept` overflows on a page at the maximum, and on no other. -/
theorem accept_eq_none_iff (hp : p.Valid) (ho : p.done = false)
    (hpage : ∀ r ∈ pageRows page, InInt64 r.tsNs) :
    p.awaiting.accept page = none ↔ p.AtMaximum page := by
  have hq := hp.awaiting
  have hpos := (hp.requested_bounds ho).1
  rw [accept_eq_none_iff_nextCursor hp]
  constructor
  · intro h
    obtain ⟨⟨hfull, hunmet⟩, hcursor⟩ := h
    unfold nextCursor at hcursor
    split_ifs at hcursor with hb
    refine ⟨hb, requested_eq hp ▸ hfull, hunmet, ?_⟩
    intro r hr
    have hle := extremeNs_le hq hb hr
    obtain ⟨r', hr', heq⟩ := extremeNs_mem hq (List.ne_nil_of_mem hr)
    have hrange := hpage r hr
    have hrange' := hpage r' hr'
    unfold checked at hcursor
    split_ifs at hcursor with hin
    simp only [InInt64, int64Min, int64Max] at hrange hrange' hin ⊢
    omega
  · intro h
    have hfull := h.full
    rw [← requested_eq hp] at hfull
    refine ⟨⟨hfull, h.unmet⟩, ?_⟩
    have hne : pageRows page ≠ [] := List.ne_nil_of_length_pos (by omega)
    obtain ⟨r, hr, heq⟩ := extremeNs_mem hq hne
    unfold nextCursor
    rw [if_pos (show p.awaiting.backward = true from h.backward), ← heq, h.last r hr]
    rfl

theorem turn_isSome_iff (hp : p.Valid) (hpage : ∀ r ∈ pageRows page, InInt64 r.tsNs) :
    (p.turn page).isSome = true ↔ (p.done = false → ¬ p.AtMaximum page) := by
  cases hd : p.done with
  | true =>
    unfold turn
    rw [hd]
    exact iff_of_true rfl nofun
  | false =>
    rw [turn_open hp hd, Option.isSome_map, Option.isSome_iff_ne_none, ne_eq,
      accept_eq_none_iff hp hd hpage]
    exact ⟨fun h _ ↦ h, fun h ↦ h rfl⟩

theorem cursorNs_inInt64 (hp : p.Valid) (hcursor : InInt64 p.cursorNs)
    (hpage : ∀ r ∈ pageRows page, InInt64 r.tsNs) (h : p.turn page = some p') :
    InInt64 p'.cursorNs := by
  cases hd : p.done with
  | true =>
    unfold turn at h
    rw [hd, if_pos rfl] at h
    exact Option.some.inj h ▸ hcursor
  | false =>
    rw [turn_open hp hd] at h
    obtain ⟨⟨p'', rows⟩, haccept, heq⟩ := Option.map_eq_some_iff.mp h
    have hq := hp.awaiting
    have hst := scanPage_spec hq.emitted_nonneg hq.emitted_le page
    have hpos := (hp.requested_bounds hd).1
    rw [← heq]
    unfold StreamPager.accept at haccept
    dsimp only at haccept
    split_ifs at haccept with hend
    · rw [← (Prod.mk.inj (Option.some.inj haccept)).1]
      exact hcursor
    · obtain ⟨cursor, hnext, haccept⟩ := Option.map_eq_some_iff.mp haccept
      split_ifs at haccept with hprogress
      · rw [← (Prod.mk.inj haccept).1]
        have hfull : ¬ (p.awaiting.scanPage page).pageCount < p.requested := fun h ↦ hend (.inl h)
        rw [hst.pageCount] at hfull
        obtain ⟨r, hr, hext⟩ := extremeNs_mem hq
          (List.ne_nil_of_length_pos (show 0 < (pageRows page).length by omega))
        unfold nextCursor at hnext
        split_ifs at hnext
        · obtain ⟨hrange, hvalue⟩ := checked_eq_some.mp hnext
          exact hvalue ▸ hrange
        · rw [← Option.some.inj hnext, ← hext]
          exact hpage r hr
      · rw [← (Prod.mk.inj haccept).1]
        exact hcursor

end Turn

section Run

theorem takeIn_keeps {p q : StreamPager} {pages : List (List StreamChunk)} (hp : p.Valid)
    (hcursor : InInt64 p.cursorNs)
    (hpages : ∀ page ∈ pages, ∀ r ∈ pageRows page, InInt64 r.tsNs)
    (h : p.takeIn pages = some q) : q.Valid ∧ InInt64 q.cursorNs := by
  unfold takeIn at h
  induction pages generalizing p with
  | nil => exact Option.some.inj h ▸ ⟨hp, hcursor⟩
  | cons page pages ih =>
    obtain ⟨hpage, hpages⟩ := List.forall_mem_cons.mp hpages
    rw [List.foldlM_cons] at h
    obtain ⟨p', hturn, hrest⟩ := Option.bind_eq_some_iff.mp h
    exact ih (turn_valid hp hturn) (cursorNs_inInt64 hp hcursor hpage hturn) hpages hrest

/-- Over every list of responses: no sum overflows, and the cursor stays within
64 bits, exactly when no page reached is at the maximum. -/
theorem takeIn_isSome_iff (logql : Str) {startNs endNs : ℤ} (hstart : InInt64 startNs)
    (hend : InInt64 endNs) (direction : Str) {userLimit cap : ℤ} (hpos : 1 ≤ userLimit)
    (hmax : userLimit ≤ int64Max) (hcap : 1 ≤ cap) (read : Str → Option Json)
    {bodies : List (Str × List StreamChunk)}
    (hparse : ∀ x ∈ bodies, parseStreamsResponse read x.1 = .ok x.2) :
    let p := new logql startNs endNs direction userLimit cap
    let pages := bodies.map Prod.snd
    ((p.takeIn pages).isSome = true ∧
      ∀ xs ys q, pages = xs ++ ys → p.takeIn xs = some q → InInt64 q.cursorNs) ↔
    ∀ xs page ys q, pages = xs ++ page :: ys → p.takeIn xs = some q → q.done = false →
      ¬ q.AtMaximum page := by
  intro p pages
  have hpages : ∀ page ∈ pages, ∀ r ∈ pageRows page, InInt64 r.tsNs := by
    intro page hpage
    obtain ⟨x, hx, hxp⟩ := List.mem_map.mp hpage
    exact hxp ▸ parseStreamsResponse_inInt64 (hparse x hx)
  have hvalid : p.Valid := new_valid hpos hmax hcap
  have hcursor : InInt64 p.cursorNs := by
    change InInt64 (if direction != "forward".toList then endNs else startNs)
    split_ifs
    · exact hend
    · exact hstart
  have hkeeps : ∀ xs ys q, pages = xs ++ ys → p.takeIn xs = some q →
      q.Valid ∧ InInt64 q.cursorNs := by
    intro xs ys q hsplit
    apply takeIn_keeps hvalid hcursor
    intro page hpage
    exact hpages page (hsplit ▸ List.mem_append_left _ hpage)
  have hstep : ∀ xs page ys q, pages = xs ++ page :: ys → p.takeIn xs = some q →
      ((q.turn page).isSome = true ↔ (q.done = false → ¬ q.AtMaximum page)) := by
    intro xs page ys q hsplit hq
    apply turn_isSome_iff (hkeeps xs _ q hsplit hq).1
    exact hpages page (hsplit ▸ List.mem_append_right _ List.mem_cons_self)
  constructor
  · intro h xs page ys q hsplit hq
    exact (hstep xs page ys q hsplit hq).mp (foldlM_isSome_iff.mp h.1 xs page ys q hsplit hq)
  · intro h
    refine ⟨foldlM_isSome_iff.mpr ?_, fun xs ys q hsplit hq ↦ (hkeeps xs ys q hsplit hq).2⟩
    intro xs page ys q hsplit hq
    exact (hstep xs page ys q hsplit hq).mpr (h xs page ys q hsplit hq)

theorem takeIn_isSome_bell :
    ((new "q".toList 0 10 "backward".toList 5 1).takeIn
      [[sampleChunk "up\x07".toList]]).isSome = true := by
  have hparse : ∀ x ∈ [(sampleBody "up\\u0007", [sampleChunk "up\x07".toList])],
      parseStreamsResponse (DuckdbLoki.sampleRead "up\\u0007" "up\x07".toList) x.1 = .ok x.2 := by
    intro x hx
    rw [List.mem_singleton.mp hx, parseStreamsResponse_bell]
  have hstart : InInt64 0 := by decide
  have hend : InInt64 10 := by decide
  have hlimit : (1 : ℤ) ≤ 5 ∧ (5 : ℤ) ≤ int64Max := by decide
  have hcap : (1 : ℤ) ≤ 1 := by decide
  have hiff := takeIn_isSome_iff "q".toList hstart hend "backward".toList hlimit.1 hlimit.2 hcap _
    hparse
  apply (hiff.mpr ?_).1
  intro xs page ys q hsplit _ _ hmax
  have hpage : page = [sampleChunk "up\x07".toList] := by
    have hmem : page ∈ xs ++ page :: ys := List.mem_append_right _ List.mem_cons_self
    rw [← hsplit] at hmem
    exact List.mem_singleton.mp hmem
  rw [hpage] at hmax
  have htop := hmax.last ⟨-7, "up\x07".toList, (sampleChunk []).labels, .empty⟩ (by decide)
  exact absurd htop (by decide)

end Run

section Samples

def topChunk (n : ℕ) : StreamChunk := ⟨.empty, List.replicate n ⟨int64Max, "x".toList, .empty⟩⟩

def topBody (n : ℕ) : Str :=
  "\x7b\"data\":\x7b\"resultType\":\"streams\",\"result\":[\x7b\"stream\":\x7b\x7d,\"values\":[".toList ++
    [','].intercalate (List.replicate n
      "[\"9223372036854775807\",\"x\",\x7b\"structuredMetadata\":\x7b\x7d\x7d]".toList) ++
    "]\x7d]\x7d\x7d".toList

def topRead (n : ℕ) (body : Str) : Option Json :=
  if body = topBody n then some (renderStreams [topChunk n]) else none

theorem parse_topBody (n : ℕ) :
    parseStreamsResponse (topRead n) (topBody n) = .ok [topChunk n] := by
  have hentry : ∀ e ∈ (topChunk n).values, InInt64 e.tsNs ∧ e.NulFree := by
    intro e he
    rw [List.eq_of_mem_replicate he]
    decide
  apply (parseStreamsResponse_renders_iff ?_ (if_pos rfl) (rendersStreams_renderStreams _)).mpr
  · intro c hc
    rw [List.mem_singleton.mp hc]
    exact ⟨nofun, fun e he ↦ (hentry e he).2⟩
  · intro c hc
    rw [List.mem_singleton.mp hc]
    exact fun e he ↦ (hentry e he).1

theorem pageRows_topChunk (n : ℕ) :
    pageRows [topChunk n] = List.replicate n ⟨int64Max, "x".toList, .empty, .empty⟩ := by
  simp [pageRows, StreamChunk.rows, topChunk]

theorem atMaximum_topChunk {p : StreamPager} (hb : p.backward = true) {n : ℕ}
    (hfull : min (p.userLimit - p.emitted + p.boundaryKeys.card) p.perRequestCap ≤ n)
    (hunmet : p.emitted + n < p.userLimit) : p.AtMaximum [topChunk n] := by
  have hlen : (pageRows [topChunk n]).length = n := by
    rw [pageRows_topChunk, List.length_replicate]
  refine ⟨hb, hlen.symm ▸ hfull, ?_, ?_⟩
  · have hle := List.length_filter_le (fun r : LokiRow ↦ r.key ∉ p.boundaryKeys)
      (pageRows [topChunk n])
    rw [hlen] at hle
    omega
  · intro r hr
    rw [pageRows_topChunk] at hr
    rw [List.eq_of_mem_replicate hr]

/-- A first page of the default size overflows the cursor of a scan for more. -/
theorem takeIn_overflows :
    parseStreamsResponse (topRead 5000) (topBody 5000) = .ok [topChunk 5000] ∧
      (new "q".toList 0 10 "backward".toList 10000 defaultPerRequestCap).takeIn
        [[topChunk 5000]] = none := by
  refine ⟨parse_topBody 5000, ?_⟩
  have hvalid : (new "q".toList 0 10 "backward".toList 10000 defaultPerRequestCap).Valid :=
    new_valid (by decide) (by decide) (by decide)
  have hrange : ∀ r ∈ pageRows [topChunk 5000], InInt64 r.tsNs :=
    parseStreamsResponse_inInt64 (parse_topBody 5000)
  have hnone := (accept_eq_none_iff hvalid rfl hrange).mpr
    (atMaximum_topChunk (by decide) (by decide) (by decide))
  rw [takeIn, List.foldlM_cons, turn_open hvalid rfl, hnone]
  rfl

end Samples

end StreamPager

end DuckdbLoki
