import DuckdbLoki.PagerRefinement

namespace DuckdbLoki.StreamPager

open Paging

theorem new_valid {logql : Str} {startNs endNs : ℤ} {direction : Str} {userLimit cap : ℤ}
    (hpos : 1 ≤ userLimit) (hmax : userLimit ≤ int64Max) (hcap : 1 ≤ cap) :
    (new logql startNs endNs direction userLimit cap).Valid := by
  refine ⟨le_rfl, hpos, hmax, hcap, ?_, fun _ ↦ ?_, le_rfl, fun e he ↦ ?_⟩
  · simp only [reader, new, Int.toNat_zero, Nat.zero_le]
  · simp only [plan, reader, new]
    omega
  · exact absurd he (Finset.notMem_empty _)

inductive Chain : StreamPager → List Turn → StreamPager → Prop
  | nil (p : StreamPager) : Chain p [] p
  | cons {p p' q : StreamPager} {page : List StreamChunk} {turns : List Turn} :
      p.done = false → BelowMax page →
      p.awaiting.accept page = some (p', p.plan.fresh p.reader (pageRows page)) →
      p.Continues p' → p'.reader = (p.plan.accept p.reader (pageRows page)).1 →
      Chain p' turns q →
      Chain p (⟨p, p.request, page, p.plan.fresh p.reader (pageRows page), p'⟩ :: turns) q

def trace (turns : List Turn) : List (List LokiRow × List LokiRow) :=
  turns.map (fun t ↦ (pageRows t.page, t.rows))

theorem emissions_trace (turns : List Turn) : emissions (trace turns) = drainedRows turns := by
  simp [emissions, trace, drainedRows, List.flatMap_def, Function.comp_def]

section Chain

variable {p q : StreamPager} {turns : List Turn}

theorem Chain.continues (h : Chain p turns q) : p.Continues q := by
  induction h with
  | nil p => exact .refl p
  | cons ho hb hacc hsame hread h ih => exact hsame.trans ih

theorem Chain.runs (h : Chain p turns q) : p.plan.Runs p.reader (trace turns) q.reader := by
  induction h with
  | nil p => exact .nil _
  | cons ho hb hacc hsame hread h ih =>
    rw [hsame.plan_eq, hread] at ih
    exact .cons ho ih

theorem Chain.append {turns' : List Turn} {r : StreamPager} (h : Chain p (turns ++ turns') r) :
    ∃ q, Chain p turns q ∧ Chain q turns' r := by
  induction turns generalizing p with
  | nil => exact ⟨p, .nil p, h⟩
  | cons t turns ih =>
    cases h with
    | cons ho hb hacc hsame hread h =>
      obtain ⟨q, h₁, h₂⟩ := ih h
      exact ⟨q, .cons ho hb hacc hsame hread h₁, h₂⟩

theorem Chain.valid (h : Chain p turns q) (hp : p.Valid) : q.Valid := by
  induction h with
  | nil p => exact hp
  | @cons p p' q page turns ho hb hacc hsame hread h ih =>
    obtain ⟨_, p'', hacc', _, _, hvalid⟩ := turn_refines hp ho hb
    rw [hacc'] at hacc
    simp only [Option.some.injEq, Prod.mk.injEq] at hacc
    exact ih (hacc.1 ▸ hvalid)

theorem Chain.emitted (h : Chain p turns q) (hp : p.Valid) :
    q.emitted = p.emitted + (drainedRows turns).length := by
  have hrun := h.runs.emitted
  have h₁ := hp.emitted_nonneg
  have h₂ := (h.valid hp).emitted_nonneg
  rw [emissions_trace] at hrun
  simp only [reader] at hrun
  omega

theorem Chain.length_le (h : Chain p turns q) (hp : p.Valid) :
    p.emitted + turns.length ≤ p.userLimit := by
  have hrun := (h.runs.length_le p.plan_ranked hp.sound hp.cap).1
  have h₁ := hp.emitted_nonneg
  have h₂ := hp.limit_pos
  simp only [reader, plan, trace, List.length_map] at hrun
  omega

end Chain

/-- The fetch loop ends within as many turns as there are rows left to return,
whatever the server answers. -/
theorem drain_chain {server : ℕ → QueryRangeRequest → List StreamChunk} (fuel : ℕ)
    {p : StreamPager} (hp : p.Valid)
    (hserver : ∀ n turns q, Chain p turns q → BelowMax (server n q.request))
    (hfuel : p.done = false → p.userLimit - p.emitted ≤ fuel) (n : ℕ) :
    ∃ q turns, drain server n fuel p = some (q, turns) ∧ q.done = true ∧ Chain p turns q ∧
      ∀ t ∈ turns, ∃ m, t.page = server m t.request := by
  induction fuel generalizing p n with
  | zero =>
    cases hd : p.done with
    | true => exact ⟨p, [], by simp [drain, hd], hd, .nil p, by simp⟩
    | false =>
      have h₁ := hp.sound.emitted_lt hd
      have h₂ := hfuel hd
      simp only [reader, plan] at h₁
      omega
  | succ fuel ih =>
    cases hd : p.done with
    | true => exact ⟨p, [], by simp [drain, hd], hd, .nil p, by simp⟩
    | false =>
      have hpage := hserver n [] p (.nil p)
      obtain ⟨hnext, p', hacc, hsame, hread, hvalid⟩ := turn_refines hp hd hpage
      have hfuel' : p'.done = false → p'.userLimit - p'.emitted ≤ fuel := by
        intro hd'
        have hprog := Plan.accept_progress hp.sound hd hp.cap
          (pageRows (server n p.request)) (by rw [← hread]; exact hd')
        have hpos := List.length_pos_iff.mpr hprog.2
        have hem := p.plan.accept_emitted p.reader (pageRows (server n p.request))
        have h₁ := hfuel hd
        have h₂ := hp.emitted_nonneg
        have h₃ := hvalid.emitted_nonneg
        rw [← hread] at hem
        simp only [reader] at hem hpos
        rw [hsame.userLimit]
        omega
      have hserver' : ∀ n turns q, Chain p' turns q → BelowMax (server n q.request) :=
        fun m turns q h ↦ hserver m _ q (.cons hd hpage hacc hsame hread h)
      obtain ⟨q, turns, hdrain, hq, hchain, hpages⟩ := ih hvalid hserver' hfuel' (n + 1)
      refine ⟨q, ⟨p, p.request, server n p.request, _, p'⟩ :: turns, ?_, hq,
        .cons hd hpage hacc hsame hread hchain, ?_⟩
      · rw [drain]
        simp only [hd, hnext, hacc, hdrain, Bool.false_eq_true, if_false, Option.bind_eq_bind,
          Option.bind_some]
      · intro t ht
        rcases List.mem_cons.mp ht with rfl | ht
        · exact ⟨n, rfl⟩
        · exact hpages t ht

section Turn

variable {p q : StreamPager} {t : Turn} {earlier later : List Turn}

theorem Chain.before (h : Chain p (earlier ++ t :: later) q) (hp : p.Valid) :
    t.before.Valid ∧ p.Continues t.before ∧ t.before.done = false ∧
      t.before.emitted = p.emitted + (drainedRows earlier).length ∧
      t.request = t.before.request := by
  obtain ⟨r, h₁, h₂⟩ := h.append
  cases h₂ with
  | cons ho hb hacc hsame hread h₂ =>
    exact ⟨h₁.valid hp, h₁.continues, ho, h₁.emitted hp, rfl⟩

theorem Valid.requested_bounds (hp : p.Valid) (ho : p.done = false) :
    1 ≤ p.requested ∧ p.requested ≤ p.perRequestCap := by
  have h₁ := hp.sound.want_pos ho hp.cap
  have h₂ := hp.cap_pos
  have h₃ : p.plan.want p.reader ≤ p.plan.cap := Nat.min_le_right _ _
  rw [requested]
  simp only [plan] at h₁ h₃ ⊢
  omega

theorem ofRequest_request (p : StreamPager) :
    RangeQuery.ofRequest p.request = some ⟨p.logql, if p.backward then p.startNs else p.cursorNs,
      if p.backward then p.cursorNs else p.endNs, p.requested, p.backward⟩ :=
  ofRequest_build ..

theorem cursor_moves {r : StreamPager} (hb : r.backward = q.backward)
    (h : q.reader.frontier < r.reader.frontier) :
    if q.backward then r.cursorNs < q.cursorNs else q.cursorNs < r.cursorNs := by
  simp only [reader, hb] at h
  split_ifs with hq
  · simp only [hq, if_true] at h
    omega
  · simpa [hq] using h

theorem Chain.progress (h : Chain p (earlier ++ t :: later) q) (hp : p.Valid)
    (ho : t.after.done = false) :
    t.rows ≠ [] ∧ if p.backward then t.after.cursorNs < t.before.cursorNs
      else t.before.cursorNs < t.after.cursorNs := by
  obtain ⟨r, h₁, h₂⟩ := h.append
  cases h₂ with
  | @cons _ p' _ page _ ho' hb hacc hsame hread h₂ =>
    have hr := h₁.valid hp
    have hprog := Plan.accept_progress hr.sound ho' hr.cap (pageRows page)
      (by rw [← hread]; exact ho)
    rw [← hread] at hprog
    rw [← h₁.continues.backward]
    exact ⟨hprog.2, cursor_moves hsame.backward hprog.1⟩

end Turn

/-- Against any server a scan ends, within its limit, and every request and
every page on the way keeps to its bounds. -/
theorem drain_safe (server : ℕ → QueryRangeRequest → List StreamChunk)
    (hserver : ∀ n r, BelowMax (server n r)) (logql : Str) (startNs endNs : ℤ)
    (direction : Str) (userLimit cap : ℤ) (hpos : 1 ≤ userLimit) (hmax : userLimit ≤ int64Max)
    (hcap : 1 ≤ cap) :
    ∃ q turns, drain server 0 userLimit.toNat
        (new logql startNs endNs direction userLimit cap) = some (q, turns) ∧
      q.done = true ∧ turns.length ≤ userLimit ∧ (drainedRows turns).length ≤ userLimit ∧
      ∀ earlier t later, turns = earlier ++ t :: later →
        (∃ r, RangeQuery.ofRequest t.request = some r ∧ 1 ≤ r.limit ∧ r.limit ≤ cap) ∧
        t.before.boundaryKeys.card ≤ (drainedRows earlier).length ∧
        userLimit - t.before.emitted + t.before.boundaryKeys.card ≤ userLimit ∧
        (t.after.done = false → t.rows ≠ [] ∧
          if direction ≠ "forward".toList then t.after.cursorNs < t.before.cursorNs
          else t.before.cursorNs < t.after.cursorNs) := by
  have hp : (new logql startNs endNs direction userLimit cap).Valid := new_valid hpos hmax hcap
  have hbw : (new logql startNs endNs direction userLimit cap).backward =
      (direction != "forward".toList) := rfl
  have hul : (new logql startNs endNs direction userLimit cap).userLimit = userLimit := rfl
  have hpc : (new logql startNs endNs direction userLimit cap).perRequestCap = cap := rfl
  have hstart : (new logql startNs endNs direction userLimit cap).emitted = 0 := rfl
  generalize new logql startNs endNs direction userLimit cap = p at *
  obtain ⟨q, turns, hdrain, hq, hchain, _⟩ :=
    drain_chain userLimit.toNat hp (fun n _ q _ ↦ hserver n q.request) (n := 0)
      (fun _ ↦ by omega)
  have hlen := hchain.length_le hp
  have hrows := hchain.emitted hp
  have hlim := (hchain.valid hp).emitted_le
  have hul' := hchain.continues.userLimit
  refine ⟨q, turns, hdrain, hq, by omega, by omega, ?_⟩
  rintro earlier t later rfl
  obtain ⟨hvalid, hsame, ho, hem, hreq⟩ := hchain.before hp
  have hbounds := hvalid.requested_bounds ho
  rw [hsame.perRequestCap, hpc] at hbounds
  have hcard := hvalid.sound.card_le
  have hnonneg := hvalid.emitted_nonneg
  simp only [reader] at hcard
  refine ⟨⟨_, hreq ▸ ofRequest_request t.before, hbounds⟩, by omega, by omega, fun ho' ↦ ?_⟩
  simpa only [hbw, bne_iff_ne] using hchain.progress hp ho'

def appQuery : Str := "\x7bapp=\"web\"\x7d".toList

def repeatedPage : List StreamChunk :=
  [⟨.empty, [⟨5, "a".toList, .empty⟩, ⟨5, "b".toList, .empty⟩]⟩]

theorem drain_safe_repeated :
    ∃ q turns, drain (fun _ _ ↦ repeatedPage) 0 3
        (new appQuery 0 30 "backward".toList 3 2) = some (q, turns) ∧
      q.done = true ∧ turns.length ≤ 3 ∧ (drainedRows turns).length ≤ 3 := by
  obtain ⟨q, turns, hdrain, hq, hlen, hrows, _⟩ := drain_safe (fun _ _ ↦ repeatedPage)
    (fun _ _ ↦ by decide) appQuery 0 30 "backward".toList 3 2 (by decide)
    (by decide) (by decide)
  exact ⟨q, turns, hdrain, hq, by omega, by omega⟩

end DuckdbLoki.StreamPager
