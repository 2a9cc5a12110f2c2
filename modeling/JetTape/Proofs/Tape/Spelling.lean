import JetTape.Proofs.Tape.Growth

/-!
What a recorded tape looks like: its start, its independents, valid items one after another, and
at most one `stop` at the end. The shape is an invariant of recording, so it holds of every tape
that a session leaves.
-/
namespace JetTape

variable {F : Type}

/-- The start of a tape and its `n` independents. -/
def headInstrs (n : Nat) : List Instr :=
  ⟨.start, [0], 0⟩ :: (List.range n).map fun i => ⟨.independent, [], i + 1⟩

@[simp] theorem length_headInstrs (n : Nat) : (headInstrs n).length = n + 1 := by
  simp [headInstrs]

theorem headInstrs_succ (n : Nat) :
    headInstrs (n + 1) = headInstrs n ++ [⟨.independent, [], n + 1⟩] := by
  simp [headInstrs, List.range_succ]

theorem placed_headInstrs (n : Nat) :
    Placed 0 (headInstrs n) ∧ rowCount (headInstrs n) = 1 + n := by
  induction n with
  | zero => exact ⟨⟨rfl, trivial⟩, rfl⟩
  | succ n ih =>
    rw [headInstrs_succ, placed_append, rowCount_append, ih.2]
    refine ⟨⟨ih.1, ?_, trivial⟩, rfl⟩
    show n + 1 + 1 = 0 + (1 + n) + 1
    omega

theorem op_headInstrs {n : Nat} : ∀ ins ∈ headInstrs n,
    (ins.op = .start ∨ ins.op = .independent) ∧ ins.op ≠ .stop := by
  intro ins hins
  simp only [headInstrs, List.mem_cons, List.mem_map] at hins
  rcases hins with rfl | ⟨i, -, rfl⟩ <;> simp

namespace Tape

/-- The tape holds its head, the items, and `tail`, which is empty or a `stop`. -/
structure Spells (t : Tape F) (items : List Item) (tail : List Instr) : Prop where
  lists : t.Lists (headInstrs t.independents ++ instrsOf items ++ tail)
  valid : ValidItems t.params.size t.loads t.registry.size (1 + t.independents) items
  rows : t.rows = 1 + t.independents + rowCount (instrsOf items)
  bound : t.rows < Index.argBound
  tail : tail = [] ∨ tail = [⟨.stop, [], t.rows - 1⟩]

theorem spells_empty : (empty : Tape F).Spells [] [] where
  lists := lists_empty
  valid := trivial
  rows := rfl
  bound := by
    show 1 < Index.argBound
    decide
  tail := Or.inl rfl

variable {t t' : Tape F} {items : List Item} {tail : List Instr}

theorem Spells.rows_pos (h : t.Spells items tail) : 0 < t.rows := by
  rw [h.rows]
  omega

theorem Spells.size_eq (h : t.Spells items tail) :
    t.ops.size = t.independents + 1 + (instrsOf items).length + tail.length := by
  rw [h.lists.size_eq, List.length_append, List.length_append, length_headInstrs]

theorem Spells.args_length_lt (h : t.Spells items tail) (hc : t.Countable) {ins : Instr}
    (hins : ins ∈ instrsOf items) : ins.args.length < Index.argBound := by
  have hmem : ins ∈ headInstrs t.independents ++ instrsOf items ++ tail := by simp [hins]
  have hsize : t.args.size =
      ((headInstrs t.independents ++ instrsOf items ++ tail).flatMap (·.args)).length := by
    rw [h.lists.args, List.size_toArray]
  obtain ⟨before, after, hsplit⟩ := List.append_of_mem hmem
  have := hc.args
  rw [hsplit, List.flatMap_append, List.flatMap_cons, List.length_append, List.length_append]
    at hsize
  omega

/-- The tape is stopped exactly if it ends with its `stop`. -/
theorem Spells.isStopped_iff (h : t.Spells items tail) : t.isStopped = true ↔ tail ≠ [] := by
  refine h.lists.isStopped_iff ?_ (h.tail.imp_right fun htail => ⟨_, htail, rfl⟩)
  intro ins hins
  rcases List.mem_append.mp hins with hins | hins
  · exact (op_headInstrs ins hins).2
  · exact (h.valid.op_ne ins hins).2.2

/-- What a step appends comes before the `stop`; on a stopped tape it appends nothing. -/
theorem Spells.gains {items' : List Item} (h : t.Spells items tail) (hg : t.Gains t' items') :
    ∃ items tail, t'.Spells items tail := by
  have hlists := hg.extends_.lists _ h.lists
  have hrows := hg.extends_.rows
  have hvalid : ValidItems t'.params.size t'.loads t'.registry.size (1 + t'.independents)
      items := by
    rw [hg.extends_.independents]
    exact h.valid.mono hg.extends_.params hg.extends_.loads hg.extends_.registry
  rw [← hg.extends_.independents] at hlists
  rcases h.tail with rfl | htail
  · refine ⟨items ++ items', [], ?_, ?_, ?_, hg.extends_.bound h.bound, Or.inl rfl⟩
    · simpa using hlists
    · rw [validItems_append]
      refine ⟨hvalid, ?_⟩
      rw [hg.extends_.independents, ← h.rows]
      exact hg.valid h.rows_pos
    · rw [hrows, h.rows, hg.extends_.independents, instrsOf_append, rowCount_append, Nat.add_assoc]
  · have hstopped : t.isStopped = true := h.isStopped_iff.mpr (by simp [htail])
    have hnone : instrsOf items' = [] := by
      by_cases hne : instrsOf items' = []
      · exact hne
      · rw [hg.extends_.running hne] at hstopped
        cases hstopped
    rw [hnone] at hlists hrows
    have hsame : t'.rows = t.rows := hrows
    refine ⟨items, tail, by simpa using hlists, hvalid, ?_, hg.extends_.bound h.bound, Or.inr ?_⟩
    · rw [hsame, h.rows, hg.extends_.independents]
    · rw [hsame, htail]

end Tape

namespace Recorder

open Tape (Spells)

variable {t t' : Tape F}

theorem spells_independent {row : Nat} (h : independent t = .ok row t') (ht : t.Spells [] []) :
    t'.Spells [] [] := by
  obtain ⟨n, s, hcount, hrest⟩ := ok_of_bind (ok_of_get h)
  obtain ⟨hcount, rfl⟩ := ok_of_lift hcount
  obtain ⟨-, rfl⟩ := Index.count_eq_ok_iff.mp hcount
  obtain ⟨_, s₁, hmodify, happend⟩ := ok_of_bind hrest
  cases hmodify
  have hextends := ok_of_append happend
  have hrow : s.rows = 1 + s.independents := by simpa using ht.rows
  have hlists : ({ s with independents := s.independents + 1 } : Tape F).Lists
      (headInstrs s.independents) := by
    obtain ⟨hops, hargs, hsize, hstarts, hrows⟩ := ht.lists
    simp only [instrsOf_nil, List.append_nil] at hops hargs hsize hstarts hrows
    exact ⟨hops, hargs, hsize, hstarts, hrows⟩
  have hindependents : t'.independents = s.independents + 1 := hextends.independents
  have hrows : t'.rows = s.rows + 1 := hextends.rows
  refine ⟨?_, trivial, ?_, hextends.bound ht.bound, Or.inl rfl⟩
  · have := hextends.lists _ hlists
    rw [hindependents, headInstrs_succ]
    simpa [hrow, Opcode.resultCount, Nat.add_comm] using this
  · rw [hrows, hindependents, hrow]
    rfl

theorem spells_collect {n i : Nat} {found rows : Array Nat}
    (h : (Loop.fold n i (fun acc _ => return acc.push (← independent)) found :
      Recorder F (Array Nat)) t = .ok rows t')
    (ht : t.Spells [] []) : t'.Spells [] [] := by
  induction n generalizing t found i with
  | zero =>
    cases h
    exact ht
  | succ n ih =>
    obtain ⟨_, _, hstep, hloop⟩ := ok_of_bind h
    obtain ⟨_, _, hstep, ⟨⟩⟩ := ok_of_bind hstep
    exact ih hloop (spells_independent hstep ht)

theorem spells_independents {n : Nat} {rows : Array Nat} (h : independents n t = .ok rows t')
    {items : List Item} {tail : List Instr} (ht : t.Spells items tail) :
    ∃ items tail, t'.Spells items tail := by
  obtain ⟨hfirst, hrest⟩ := checks_require.bind (ok_of_get h)
  obtain ⟨_, s, hroom, hloop⟩ := ok_of_bind hrest
  obtain ⟨-, rfl⟩ := ok_of_lift hroom
  -- Nothing but independents has been recorded, so the items and the tail are empty.
  have hsize := ht.size_eq
  have hitems : items = [] := by
    cases items with
    | nil => rfl
    | cons item items =>
      rw [instrsOf_cons, List.length_append] at hsize
      have hpos := List.length_pos_iff.mpr item.instrs_ne_nil
      omega
  have htail : tail = [] := List.length_eq_zero_iff.mp (by omega)
  subst hitems htail
  exact ⟨[], [], spells_collect hloop ht⟩

theorem spells_finish {u : Unit} (h : finish t = .ok u t') {items : List Item}
    {tail : List Instr} (ht : t.Spells items tail) : ∃ items tail, t'.Spells items tail := by
  obtain ⟨_, _, happend, ⟨⟩⟩ := ok_of_bind h
  have hextends := ok_of_append happend
  have hrunning := hextends.running (List.cons_ne_nil _ _)
  have htail : tail = [] := by
    by_cases hne : tail = []
    · exact hne
    · rw [ht.isStopped_iff.mpr hne] at hrunning
      cases hrunning
  subst htail
  have hlists := hextends.lists _ ht.lists
  have hrows : t'.rows = t.rows := hextends.rows
  rw [← hextends.independents] at hlists
  refine ⟨items, [⟨.stop, [], t'.rows - 1⟩], ?_, ?_, ?_, hextends.bound ht.bound, Or.inr rfl⟩
  · rw [hrows]
    simpa [Opcode.resultCount] using hlists
  · rw [hextends.independents]
    exact ht.valid.mono hextends.params hextends.loads hextends.registry
  · rw [hrows, hextends.independents]
    exact ht.rows

/-- A step that comes out well keeps the shape of a tape. -/
theorem spells_record [Scalar F] {action : Action F} {u : Unit} (h : action.record t = .ok u t')
    {items : List Item} {tail : List Instr} (ht : t.Spells items tail) :
    ∃ items tail, t'.Spells items tail := by
  cases action with
  | independents n =>
    obtain ⟨_, _, h, ⟨⟩⟩ := ok_of_bind h
    exact spells_independents h ht
  | call handle callId args results =>
    obtain ⟨_, _, h, ⟨⟩⟩ := ok_of_bind h
    obtain ⟨items', hg⟩ := gains_call h
    exact ht.gains hg
  | finish => exact spells_finish h ht
  | _ =>
    obtain ⟨l, hg⟩ := gains_record h nofun nofun nofun
    exact ht.gains hg

end Recorder

/-- Every recorded tape has the shape of a recording. -/
theorem Tape.Recorded.spells [Scalar F] {t : Tape F} (h : t.Recorded) :
    ∃ items tail, t.Spells items tail := by
  obtain ⟨actions, h⟩ := h
  have hstart : ∃ items tail, (Tape.empty : Tape F).Spells items tail := ⟨[], [], spells_empty⟩
  generalize Tape.empty = s at h hstart
  induction actions generalizing s with
  | nil =>
    cases h
    exact hstart
  | cons action actions ih =>
    obtain ⟨_, s₁, hstep, hrest⟩ := Recorder.ok_of_bind (m := action.record)
      (k := fun _ => actions.forM Recorder.Action.record) h
    obtain ⟨items, tail, hs⟩ := hstart
    exact ih s₁ hrest (Recorder.spells_record hstep hs)

end JetTape
