import JetTape.Proofs.Replay.Writes
import JetTape.Proofs.Sweep.Run

/-!
Where a sweep of a recorded tape comes to a block. A marker with an even number of markers before it
opens a block of the tape. Between blocks the cursor passes over an even number of markers and
inside a block that is not skipped over none, so the sweep finds no block open where one begins.
-/
namespace JetTape.Tape

open Replay (stations stationsFrom Stepped Stands)

variable {F : Type} {t : Tape F} {n p m k : Nat}

theorem markersBefore_append {pre post : List Instr}
    (hops : t.ops.toList = (pre ++ post).map (·.op)) :
    t.markersBefore pre.length = (pre.map (·.op)).count .callMarker := by
  unfold markersBefore
  rw [hops]
  simp

theorem markersBefore_succ {i : Nat} {op : Opcode} (h : t.ops[i]? = some op) :
    t.markersBefore (i + 1) = t.markersBefore i + if op = .callMarker then 1 else 0 := by
  unfold markersBefore
  rw [List.take_add_one, List.count_append, Array.getElem?_toList, h]
  split <;> simp_all

/-- Past the opening marker of a block and up to the closing one there is one marker more. -/
theorem count_take_block {b : Block} (hb : b.Valid n p k) {c : Nat} (hpos : 0 < c)
    (hc : c < b.instrs.length) : ((b.instrs.take c).map (·.op)).count .callMarker = 1 := by
  obtain ⟨c, rfl⟩ : ∃ c', c = c' + 1 := ⟨c - 1, by omega⟩
  have hsplit : b.instrs = b.opening :: ((b.args ++ b.results) ++ [b.closing]) := by
    simp [Block.instrs]
  rw [hsplit, List.length_cons, List.length_append, List.length_singleton] at hc
  have hinside : (((b.args ++ b.results).take c).map (·.op)).count .callMarker = 0 := by
    rw [List.count_eq_zero]
    intro hmem
    obtain ⟨ins, hins, hop⟩ := List.mem_map.mp hmem
    exact hb.not_marker ins (List.mem_of_mem_take hins) hop
  rw [hsplit, List.take_succ_cons, List.take_append_of_le_length (by omega), List.map_cons,
    List.count_cons, hinside, hb.opens]
  rfl

/-- Among items after an even number of markers an opening marker begins a block. -/
theorem exists_call_of_opening {pre post : List Instr} {items : List Item}
    (hitems : ValidItems p m k n items)
    (hops : t.ops.toList = (pre ++ instrsOf items ++ post).map (·.op))
    (heven : (pre.map (·.op)).count .callMarker % 2 = 0) {o : Nat} (hin : t.InBlock o o)
    (hle : pre.length ≤ o) (hlt : o < pre.length + (instrsOf items).length) :
    ∃ before b after, items = before ++ .call b :: after ∧
      o = pre.length + (instrsOf before).length := by
  induction items generalizing pre n with
  | nil =>
    rw [instrsOf_nil, List.length_nil] at hlt
    omega
  | cons item rest ih =>
    obtain ⟨hitem, hrest⟩ := hitems
    have hops' : t.ops.toList = (pre ++ item.instrs ++ (instrsOf rest ++ post)).map (·.op) := by
      simpa using hops
    by_cases hhere : o < (pre ++ item.instrs).length
    · cases item with
      | plain ins =>
        rw [List.length_append, Item.instrs, List.length_singleton] at hhere
        obtain rfl : o = pre.length := by omega
        have hop := hin.marker
        rw [← Array.getElem?_toList, hops'] at hop
        have hop : ins.op = .callMarker := by simpa [Item.instrs] using hop
        have hplain := hitem.1.isPlain
        rw [hop] at hplain
        cases hplain
      | call b =>
        obtain ⟨c, rfl⟩ := Nat.exists_eq_add_of_le hle
        rcases Nat.eq_zero_or_pos c with rfl | hpos
        · exact ⟨[], b, rest, rfl, rfl⟩
        · -- Anywhere else in the block the number of markers before is odd.
          rw [List.length_append] at hhere
          have hc : c < b.instrs.length := Nat.lt_of_add_lt_add_left hhere
          have hsplit : pre ++ b.instrs ++ (instrsOf rest ++ post) =
              (pre ++ b.instrs.take c) ++ (b.instrs.drop c ++ (instrsOf rest ++ post)) := by
            rw [List.append_assoc, List.append_assoc, ← List.append_assoc (b.instrs.take c),
              List.take_append_drop]
          have hlen : (pre ++ b.instrs.take c).length = pre.length + c := by
            rw [List.length_append, List.length_take, Nat.min_eq_left (Nat.le_of_lt hc)]
          rw [Item.instrs, hsplit] at hops'
          have hcount := markersBefore_append hops'
          rw [hlen, List.map_append, List.count_append, count_take_block hitem hpos hc] at hcount
          have hopens := hin.opens
          omega
    · rw [List.length_append] at hhere
      have heven' : ((pre ++ item.instrs).map (·.op)).count .callMarker % 2 = 0 := by
        rw [List.map_append, List.count_append]
        have := count_item hitem
        omega
      rw [instrsOf_cons, List.length_append] at hlt
      obtain ⟨before, b, after, rfl, hindex⟩ : ∃ before b after, rest = before ++ .call b :: after ∧
          o = (pre ++ item.instrs).length + (instrsOf before).length :=
        ih hrest (by simpa using hops) heven' (by rw [List.length_append]; omega)
          (by rw [List.length_append]; omega)
      refine ⟨item :: before, b, after, rfl, ?_⟩
      rw [hindex, instrsOf_cons, List.length_append, List.length_append, Nat.add_assoc]

variable {items : List Item} {tail : List Instr}

/-- An opening marker of a recorded tape begins one of its blocks. -/
theorem Spells.exists_call (h : t.Spells items tail) {o : Nat} (hin : t.InBlock o o) :
    ∃ before b after, items = before ++ .call b :: after ∧
      o = t.independents + 1 + (instrsOf before).length := by
  have hops := h.ops_eq
  have hmarker := hin.marker
  rw [← Array.getElem?_toList, hops, List.getElem?_map, Option.map_eq_some_iff] at hmarker
  obtain ⟨ins, hins, hop⟩ := hmarker
  rw [List.getElem?_append, List.getElem?_append] at hins
  rw [← length_headInstrs]
  have hhead : ∀ ins ∈ headInstrs t.independents, ins.op ≠ .callMarker := by
    intro ins hins hop
    have hzero := count_headInstrs t.independents
    rw [List.count_eq_zero] at hzero
    exact hzero (List.mem_map.mpr ⟨ins, hins, hop⟩)
  split at hins
  · rename_i hlt
    rw [List.length_append] at hlt
    split at hins
    · exact absurd hop (hhead ins (List.mem_of_getElem? hins))
    · exact exists_call_of_opening h.valid hops (by rw [count_headInstrs]) hin (by omega) hlt
  · rcases h.tail with rfl | rfl
    · simp at hins
    · have hmem := List.mem_of_getElem? hins
      rw [List.mem_singleton.mp hmem] at hop
      cases hop

/-- The block stands at instruction `o` of the tape, after `n` rows. -/
structure HasBlock (t : Tape F) (o n : Nat) (b : Block) : Prop where
  valid : b.Valid n t.params.size t.registry.size
  rows_pos : 0 < n
  rows_le : n + rowCount b.instrs ≤ t.rows
  counted : b.args.length < Index.argBound ∧ b.results.length < Index.argBound
  holds : t.program.Holds o b.instrs
  size_le : o + b.instrs.length ≤ t.ops.size
  inside : ∀ c < b.instrs.length, t.InBlock o (o + c)
  even : t.markersBefore (o + b.instrs.length) % 2 = 0

/-- A block among the items of a tape stands where its items before end. -/
theorem Spells.hasBlock (h : t.Spells items tail) (hc : t.Countable) {before after : List Item}
    {b : Block} (hitems : items = before ++ .call b :: after) :
    t.HasBlock (t.independents + 1 + (instrsOf before).length)
      (1 + t.independents + rowCount (instrsOf before)) b := by
  let pre := headInstrs t.independents ++ instrsOf before
  have hlen : pre.length = t.independents + 1 + (instrsOf before).length := by
    rw [List.length_append, length_headInstrs]
  have hlist : headInstrs t.independents ++ instrsOf items ++ tail =
      pre ++ b.instrs ++ (instrsOf after ++ tail) := by
    rw [hitems]
    simp [pre, Item.instrs]
  have hvalid := h.valid
  rw [hitems, validItems_append] at hvalid
  have hb : b.Valid (1 + t.independents + rowCount (instrsOf before)) t.params.size
    t.registry.size := hvalid.2.1
  have hrows := h.rows
  rw [hitems, instrsOf_append, instrsOf_cons, rowCount_append, rowCount_append] at hrows
  have hops := h.ops_eq
  have hholds := h.program_holds hc
  have hsize := h.lists.size_eq
  rw [hlist] at hops hholds hsize
  have heven : (pre.map (·.op)).count .callMarker % 2 = 0 := by
    have hbefore := count_items hvalid.1
    rw [List.map_append, List.count_append, count_headInstrs]
    omega
  have hmark := markersBefore_append hops
  rw [List.map_append, List.count_append, (count_block hb).1, List.length_append, hlen] at hmark
  have hthere := (Program.holds_append.mp (Program.holds_append.mp hholds).1).2
  rw [Nat.zero_add, hlen] at hthere
  rw [List.length_append, List.length_append, hlen] at hsize
  refine ⟨hb, by omega, ?_, h.counted hc (by simp [hitems]), hthere, by omega, ?_, by omega⟩
  · rw [hrows, Item.instrs]
    omega
  · intro c hlt
    have hinside := inBlock_of_block hb hops heven hlt
    rwa [hlen] at hinside

theorem Spells.exists_block (h : t.Spells items tail) (hc : t.Countable) {o : Nat}
    (hin : t.InBlock o o) : ∃ n b, t.HasBlock o n b := by
  obtain ⟨before, b, after, hitems, rfl⟩ := h.exists_call hin
  exact ⟨_, b, h.hasBlock hc hitems⟩

section Stations

variable [Scalar F] {q : Nat} {mask : Array Bool} {resolved : Array Nat} {options : Options}

omit [Scalar F] in
theorem Spells.exists_instr_at (h : t.Spells items tail) (hc : t.Countable) {i : Nat}
    (hi : i < t.ops.size) : ∃ ins, t.instr i = .ok ins ∧ t.ops[i]? = some ins.op := by
  rw [h.lists.size_eq] at hi
  have hins := h.lists.instr_eq hc.args hi
  exact ⟨_, hins, (of_instr hins).1⟩

omit [Scalar F] in
/-- Between blocks the cursor passes over whole blocks only. -/
theorem Spells.even_of_next (h : t.Spells items tail) (hc : t.Countable)
    (hsize : mask.size = t.ops.size) {i j : Nat}
    (hnext : Cursor.next t.program mask i = .ok j) (heven : t.markersBefore i % 2 = 0) :
    t.markersBefore j % 2 = 0 := by
  induction hn : mask.size - i using Nat.strongRecOn generalizing i with
  | ind d ih =>
    subst hn
    by_cases hi : i < mask.size
    · obtain ⟨ins, hins, hop⟩ := h.exists_instr_at hc (hsize ▸ hi)
      cases hmark : mask[i] with
      | false =>
        rw [Cursor.next_of_unmarked (by simp [hi, hmark])] at hnext
        cases hnext
        exact heven
      | true =>
        have hmark : mask[i]? = some true := by simp [hi, hmark]
        by_cases hmarker : ins.op = .callMarker
        · obtain ⟨n, b, hb⟩ := h.exists_block hc
            ⟨hmarker ▸ hop, heven, Nat.le_refl i, Nat.le_succ _⟩
          have hbound : mask.size ≤ Index.bound := by
            have hargBound : Index.argBound ≤ Index.bound := by decide
            have := hc.instrs
            omega
          have hvalid : (Item.call b).Valid n t.params.size 0 t.registry.size := hb.valid
          have hbracketed := Replay.bracketed_of_valid (plan_for t 0 mask #[]) hvalid
            fun _ heq => Item.call.inj heq ▸ hb.counted
          have hpass := next_of_marked_item hbracketed hb.holds (hsize ▸ hb.size_le) hbound hmark
          have hpos : 0 < b.instrs.length := Nat.succ_pos _
          exact ih _ (Nat.sub_lt_sub_left hi (Nat.lt_add_of_pos_right hpos))
            (hpass.symm.trans hnext) hb.even rfl
        · have hpass : Cursor.pass t.program mask i = .ok (i + 1) := by
            unfold Cursor.pass
            rw [show t.program.instr i = .ok ins from hins]
            show (if ins.op = .callMarker then _ else _) = _
            rw [if_neg hmarker]
            rfl
          rw [Cursor.next_of_marked hmark hpass] at hnext
          have heven' : t.markersBefore (i + 1) % 2 = 0 := by
            rw [markersBefore_succ hop, if_neg hmarker]
            exact heven
          exact ih _ (by omega) hnext heven' rfl
    · rw [Cursor.next, dif_neg hi] at hnext
      cases hnext

variable (t mask) in
/-- A sweep that goes on at instruction `i` in state `s` is between blocks and has none open, or it
is inside a block whose opening marker is unmarked and has it open. -/
def Follows (i : Nat) (s : ReplayState F) : Prop :=
  (t.markersBefore i % 2 = 0 ∧ s.frame.isSome = false) ∨
    (t.markersBefore i % 2 = 1 ∧ s.frame.isSome = true ∧
      ∃ o, t.InBlock o i ∧ mask.getD o false = false)

omit [Scalar F] in
theorem Spells.follows_next (h : t.Spells items tail) (hc : t.Countable)
    (hsize : mask.size = t.ops.size) (hmask : t.MaskOk mask) {i j : Nat} {s s' : ReplayState F}
    (hfollows : t.Follows mask i s) (hnext : Cursor.next t.program mask i = .ok j)
    (hframe : s'.frame = s.frame) : t.Follows mask j s' := by
  rcases hfollows with ⟨heven, hnone⟩ | ⟨hodd, hsome, o, hin, ho⟩
  · exact Or.inl ⟨h.even_of_next hc hsize hnext heven, hframe ▸ hnone⟩
  · -- Inside an unmarked block nothing is passed over.
    have hj : mask[j]? = some false := Cursor.unmarked_of_next hnext
    have hi : i < mask.size := Nat.lt_of_le_of_lt (Cursor.le_of_next hnext)
      (Cursor.lt_size_of_next hnext)
    have hunmarked : mask[i]? = some false := by
      have hget := hmask.blocks o i hin ho
      simpa [Array.getD, hi] using hget
    rw [Cursor.next_of_unmarked hunmarked] at hnext
    cases hnext
    exact Or.inr ⟨hodd, hframe ▸ hsome, o, hin, ho⟩

omit [Scalar F] in
theorem Follows.step {j : Nat} {ins : Instr} {s s' : ReplayState F} (hfollows : t.Follows mask j s)
    (hins : t.instr j = .ok ins) (hj : mask[j]? = some false) (hstep : Stepped q s ins s') :
    t.Follows mask (j + 1) s' := by
  have hop := (of_instr hins).1
  have hcount := markersBefore_succ hop
  have hopens := hstep.opens
  by_cases hmarker : ins.op = .callMarker
  · rw [if_pos hmarker] at hcount
    rcases hfollows with ⟨heven, hnone⟩ | ⟨hodd, hsome, -⟩
    · refine Or.inr ⟨by omega, by simpa [hmarker, hnone] using hopens, j, ?_, ?_⟩
      · exact ⟨hmarker ▸ hop, heven, Nat.le_succ j, by omega⟩
      · simp [Array.getD_eq_getD_getElem?, hj]
    · exact Or.inl ⟨by omega, by simpa [hmarker, hsome] using hopens⟩
  · rw [if_neg hmarker] at hcount
    rcases hfollows with ⟨heven, hnone⟩ | ⟨hodd, hsome, o, hin, ho⟩
    · exact Or.inl ⟨by omega, by simpa [hmarker, hnone] using hopens⟩
    · refine Or.inr ⟨by omega, by simpa [hmarker, hsome] using hopens, o, ?_, ho⟩
      exact ⟨hin.marker, hin.opens, Nat.le_succ_of_le hin.le, hcount ▸ hin.before_end⟩

/-- With a consistent mask a sweep has its place at every station. -/
theorem Spells.follows_of_mem (h : t.Spells items tail) (hc : t.Countable)
    (hsize : mask.size = t.ops.size) (hmask : t.MaskOk mask) {i j : Nat} {s s' : ReplayState F}
    (hfollows : t.Follows mask i s)
    (hmem : (j, s') ∈ stationsFrom t.program q mask resolved options i s) :
    t.Follows mask j s' := by
  induction i, s using Replay.replay_induct mask with
  | h i s ih =>
    have hpassage := Replay.passage t.program q mask resolved options i s
    generalize Replay.replayFrom t.program q mask resolved options i s = out at hpassage
    generalize stationsFrom t.program q mask resolved options i s = list at hpassage hmem
    cases hpassage with
    | lost => cases hmem
    | unread hstands | stops hstands | halts hstands =>
      cases List.mem_singleton.mp hmem
      exact h.follows_next hc hsize hmask hfollows hstands.next rfl
    | @goesOn j₁ events ins s₁ hstands hins hop hstep =>
      have hhere : t.Follows mask j₁ { s with events } :=
        h.follows_next hc hsize hmask hfollows hstands.next rfl
      rcases List.mem_cons.mp hmem with hmem | hmem
      · cases hmem
        exact hhere
      · exact ih _ _ hstands.le (Cursor.lt_size_of_next hstands.next)
          (hhere.step hins hstands.unmarked (Replay.stepped_of_stepAt hstep)) hmem

/-- Where a block begins a sweep with a consistent mask has none open. -/
theorem Spells.frame_eq_none (h : t.Spells items tail) (hc : t.Countable) (hmask : t.MaskOk mask)
    {a : Arena F} {o : Nat} {s : ReplayState F} (hin : t.InBlock o o)
    (hmem : (o, s) ∈ stations t.program q mask resolved options a) : s.frame = none := by
  obtain ⟨hshapes, events, hmem⟩ := Replay.mem_stationsFrom_of_mem_stations hmem
  have hsize : mask.size = t.ops.size := by
    simp only [Replay.checkShapes, bind_eq_ok_iff, require_eq_ok_iff] at hshapes
    obtain ⟨-, -, -, -, -, -, -, -, -, hsize, -⟩ := hshapes
    exact hsize
  have hstart : t.Follows mask (t.program.independentCount + 1) { arena := a, events } := by
    refine Or.inl ⟨?_, rfl⟩
    have hcount := markersBefore_append ((List.append_assoc ..) ▸ h.ops_eq)
    rw [length_headInstrs, count_headInstrs] at hcount
    rw [show t.program.independentCount = t.independents from rfl, hcount]
  rcases h.follows_of_mem hc hsize hmask hstart hmem with ⟨-, hnone⟩ | ⟨hodd, -⟩
  · simpa using hnone
  · have heven := hin.opens
    omega

end Stations

end JetTape.Tape
