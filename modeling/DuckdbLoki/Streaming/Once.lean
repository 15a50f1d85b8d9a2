import DuckdbLoki.Machines.Run

namespace Streaming

variable {σ α β ε : Type}

/-- The world that is asked, whether it was, the elements and how many of them
are gone. -/
structure Once (σ α : Type) where
  world : σ
  fetched : Bool := false
  rows : List α := []
  offset : ℕ := 0
deriving DecidableEq

namespace Once

def handOut (emit : α → β) (rows : List α) : ℕ → ℕ → ℕ × List β
  | 0, offset => (offset, [])
  | room + 1, offset =>
    match rows[offset]? with
    | none => (offset, [])
    | some x =>
      let (offset, chunk) := handOut emit rows room (offset + 1)
      (offset, emit x :: chunk)

variable (ask : σ → Except ε (σ × List α)) (width : ℕ) (emit : α → β)

def hand (s : Once σ α) : Once σ α × List β :=
  let (offset, chunk) := handOut emit s.rows width s.offset
  ({ s with offset := offset }, chunk)

/-- A call; an answer that is an error leaves nothing behind. -/
def call (s : Once σ α) : Except ε (Once σ α × List β) :=
  if s.fetched then .ok (hand width emit s)
  else (ask s.world).map (fun (world, rows) ↦
    hand width emit { s with world := world, fetched := true, rows := rows })

def step (s : Once σ α) (_ : Unit) : Option (Once σ α × List β) :=
  (call ask width emit s).toOption

def chunk (rows : List α) (k : ℕ) : List β := ((rows.drop (k * width)).take width).map emit

def served (world : σ) (rows : List α) (n : ℕ) : Once σ α :=
  ⟨world, true, rows, min (n * width) rows.length⟩

section Chunks

theorem handOut_eq (rows : List α) (room offset : ℕ) :
    handOut emit rows room offset =
      (offset + min room (rows.length - offset), ((rows.drop offset).take room).map emit) := by
  induction room generalizing offset with
  | zero => simp [handOut]
  | succ room ih =>
    unfold handOut
    cases hx : rows[offset]? with
    | none =>
      have hlen := List.getElem?_eq_none_iff.mp hx
      rw [List.drop_eq_nil_of_le hlen, Nat.sub_eq_zero_of_le hlen]
      simp
    | some x =>
      obtain ⟨hlt, hget⟩ := List.getElem?_eq_some_iff.mp hx
      dsimp only
      rw [ih, List.drop_eq_getElem_cons hlt, List.take_succ_cons, List.map_cons, hget]
      have hnext : offset + 1 + min room (rows.length - (offset + 1)) =
          offset + min (room + 1) (rows.length - offset) := by omega
      rw [hnext]

theorem hand_served (world : σ) (rows : List α) (n : ℕ) :
    hand width emit (served width world rows n) =
      (served width world rows (n + 1), chunk width emit rows n) := by
  have hdrop : rows.drop (min (n * width) rows.length) = rows.drop (n * width) := by
    rcases Nat.le_total (n * width) rows.length with h | h
    · rw [Nat.min_eq_left h]
    · rw [Nat.min_eq_right h, List.drop_length, List.drop_eq_nil_of_le h]
  have hoffset : min (n * width) rows.length +
      min width (rows.length - min (n * width) rows.length) =
        min ((n + 1) * width) rows.length := by
    rw [Nat.succ_mul]
    omega
  unfold hand served chunk
  dsimp only
  rw [handOut_eq, hdrop, hoffset]

theorem flatMap_chunk (rows : List α) (n : ℕ) :
    (List.range n).flatMap (chunk width emit rows) = (rows.take (n * width)).map emit := by
  induction n with
  | zero => simp
  | succ n ih =>
    rw [List.range_succ, List.flatMap_append, ih, Nat.succ_mul, List.take_add, List.map_append]
    simp [chunk]

theorem length_chunk_le (rows : List α) (k : ℕ) : (chunk width emit rows k).length ≤ width := by
  rw [chunk, List.length_map]
  exact List.length_take_le _ _

theorem chunk_eq_nil {rows : List α} {k : ℕ} (hwidth : 0 < width)
    (h : chunk width emit rows k = []) : rows.length ≤ k * width := by
  have hlen := congrArg List.length h
  rw [chunk, List.length_map, List.length_take, List.length_drop, List.length_nil] at hlen
  omega

end Chunks

section Run

variable {ask width emit} {world world' : σ} {rows : List α} {t : Once σ α}
  {calls : List (Machines.Transition (Once σ α) Unit (List β))}

theorem step_served (n : ℕ) :
    step ask width emit (served width world rows n) () =
      some (served width world rows (n + 1), chunk width emit rows n) := by
  have hcall : call ask width emit (served width world rows n) =
      .ok (hand width emit (served width world rows n)) := if_pos rfl
  rw [step, hcall, hand_served]
  rfl

theorem step_start (hask : ask world = .ok (world', rows)) :
    step ask width emit { world := world } () =
      some (served width world' rows 1, chunk width emit rows 0) := by
  have hstart : (⟨world', true, rows, 0⟩ : Once σ α) = served width world' rows 0 := by
    rw [served, Nat.zero_mul, Nat.zero_min]
  have hcall : call ask width emit { world := world } =
      .ok (hand width emit (served width world' rows 0)) := by
    rw [call, if_neg Bool.false_ne_true, hask, ← hstart]
    rfl
  rw [step, hcall, hand_served]
  rfl

/-- The state after a run, and what the run has shown. -/
theorem run_eq (hask : ask world = .ok (world', rows))
    (hrun : Machines.Run (step ask width emit) { world := world } calls t) :
    (t = if calls = [] then { world := world } else served width world' rows calls.length) ∧
      calls.map Machines.Transition.event = (List.range calls.length).map (chunk width emit rows) := by
  induction hrun with
  | nil => exact ⟨rfl, rfl⟩
  | @snoc calls t u a e hrun hlast ih =>
    obtain ⟨ht, hevents⟩ := ih
    have hnext : u = served width world' rows (calls.length + 1) ∧
        e = chunk width emit rows calls.length := by
      by_cases hnone : calls = []
      · rw [if_pos hnone] at ht
        rw [ht, step_start hask] at hlast
        obtain ⟨hu, he⟩ := Prod.mk.inj (Option.some.inj hlast)
        rw [hnone]
        exact ⟨hu.symm, he.symm⟩
      · rw [if_neg hnone] at ht
        rw [ht, step_served] at hlast
        obtain ⟨hu, he⟩ := Prod.mk.inj (Option.some.inj hlast)
        exact ⟨hu.symm, he.symm⟩
    rw [List.length_append, List.length_singleton, if_neg (List.append_ne_nil_of_right_ne_nil _
      (List.cons_ne_nil _ _)), List.map_append, hevents, List.range_succ, List.map_append, hnext.1]
    refine ⟨rfl, ?_⟩
    rw [List.map_singleton, List.map_singleton, hnext.2]

theorem call_refused {e : ε} (hask : ask world = .error e) :
    call ask width emit { world := world } = .error e := by
  rw [call, if_neg Bool.false_ne_true, hask]
  rfl

theorem run_refused {e : ε} (hask : ask world = .error e)
    (hrun : Machines.Run (step ask width emit) { world := world } calls t) :
    calls = [] ∧ t = { world := world } := by
  induction hrun with
  | nil => exact ⟨rfl, rfl⟩
  | snoc _ hlast ih =>
    rw [ih.2, step, call_refused hask] at hlast
    cases hlast

/-- What a run has handed out: the chunks in order, and everything once one of
them is empty, which one of so many must be. -/
theorem run_chunks (hwidth : 0 < width) (hask : ask world = .ok (world', rows))
    (hrun : Machines.Run (step ask width emit) { world := world } calls t) :
    (∀ x ∈ calls, x.event.length ≤ width) ∧
      calls.flatMap Machines.Transition.event = (rows.take (calls.length * width)).map emit ∧
      ((∃ x ∈ calls, x.event = []) →
        calls.flatMap Machines.Transition.event = rows.map emit) ∧
      (rows.length < calls.length → ∃ x ∈ calls, x.event = []) := by
  obtain ⟨_, hevents⟩ := run_eq hask hrun
  have hmem : ∀ x ∈ calls, ∃ k < calls.length, x.event = chunk width emit rows k := by
    intro x hx
    have hx := List.mem_map_of_mem (f := Machines.Transition.event) hx
    rw [hevents] at hx
    obtain ⟨k, hk, heq⟩ := List.mem_map.mp hx
    exact ⟨k, List.mem_range.mp hk, heq.symm⟩
  have hflat : calls.flatMap Machines.Transition.event =
      (rows.take (calls.length * width)).map emit := by
    rw [← flatMap_chunk, List.flatMap_def, hevents, List.flatMap_def]
  refine ⟨?_, hflat, ?_, ?_⟩
  · intro x hx
    obtain ⟨k, _, heq⟩ := hmem x hx
    rw [heq]
    exact length_chunk_le width emit rows k
  · rintro ⟨x, hx, hempty⟩
    obtain ⟨k, hk, heq⟩ := hmem x hx
    have hlen := chunk_eq_nil width emit hwidth (heq.symm.trans hempty)
    have hle : k * width ≤ calls.length * width := Nat.mul_le_mul_right _ (Nat.le_of_lt hk)
    rw [hflat, List.take_of_length_le (Nat.le_trans hlen hle)]
  · intro hmany
    have hlast : chunk width emit rows rows.length ∈ calls.map Machines.Transition.event := by
      rw [hevents]
      exact List.mem_map_of_mem (List.mem_range.mpr hmany)
    obtain ⟨x, hx, heq⟩ := List.mem_map.mp hlast
    refine ⟨x, hx, heq.trans ?_⟩
    rw [chunk, List.drop_eq_nil_of_le (Nat.le_mul_of_pos_right _ hwidth), List.take_nil,
      List.map_nil]

end Run

end Once

end Streaming
