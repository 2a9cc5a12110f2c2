import JetTape.Proofs.Tape.Relocation
import JetTape.Proofs.Tape.Spelling

/-!
Composed tapes. Where each independent of a tape is identified with a variable of another tape, the
instructions of the one behind those of the other make one tape. It has the shape of a recording.
-/
namespace JetTape

variable {F : Type}

namespace Tape

/-- One variable of the tape `t` for each independent of the tape `u`. -/
abbrev Choice (t u : Tape F) : Type := Fin u.independents → {v : Nat // 0 < v ∧ v < t.rows}

/-- Where the tape `u` goes behind the tape `t`. Its independents become the chosen variables. -/
def relocation (t u : Tape F) (choice : t.Choice u) : Relocation where
  rows := u.rows
  renamed := u.independents
  target v := if h : 0 < v ∧ v - 1 < u.independents then choice ⟨v - 1, h.2⟩ else 0
  earlier := t.rows - 1
  params := t.params.size
  slots := t.loads
  handles := t.registry.size
  target_pos v hv := by
    split
    · exact ⟨fun _ => by omega, fun _ => (choice _).2.1⟩
    · omega
  target_le v hv := by
    split
    · exact Nat.le_sub_one_of_lt (choice _).2.2
    · exact Nat.zero_le _

/-- Appends instructions, each with rows of its own. -/
def extend (t : Tape F) (l : List Instr) : Tape F :=
  l.foldl (fun t ins => t.append ins.op ins.args (t.rows + ins.op.resultCount)) t

/-- The parameters, load slots and operators of both tapes, and no instructions yet. -/
def tables (t u : Tape F) : Tape F where
  ops := #[]
  argStart := #[0]
  args := #[]
  resultRows := #[]
  params := t.params ++ u.params
  independents := t.independents
  rows := 0
  loads := t.loads + u.loads
  registry := t.registry ++ u.registry

/-- The instructions of the tape `t` but for its `stop`, and behind them those of the tape `u` but
for its start and its independents. -/
def compose (t u : Tape F) (choice : t.Choice u) : Tape F :=
  (t.tables u).extend ((t.instrs.filter fun ins => ins.op ≠ .stop) ++
    (u.instrs.filter fun ins => ins.op ≠ .start ∧ ins.op ≠ .independent).map
      (t.relocation u choice).instr)

/-- The table of what the loads of both tapes stand for. -/
def composeLoads (t u : Tape F) (choice : t.Choice u) (resolved resolved' : Array Nat) :
    Array Nat :=
  resolved ++ resolved'.map (t.relocation u choice).row

section Extend

variable {t : Tape F} {l l' : List Instr}

theorem rows_extend (t : Tape F) (l : List Instr) : (t.extend l).rows = t.rows + rowCount l := by
  induction l generalizing t with
  | nil => rfl
  | cons ins l ih => exact (ih _).trans (Nat.add_assoc _ _ _)

/-- Besides the instructions and their rows nothing changes. -/
theorem extend_other (t : Tape F) (l : List Instr) :
    (t.extend l).params = t.params ∧ (t.extend l).independents = t.independents ∧
      (t.extend l).loads = t.loads ∧ (t.extend l).registry = t.registry := by
  induction l generalizing t with
  | nil => exact ⟨rfl, rfl, rfl, rfl⟩
  | cons ins l ih => exact ih _

/-- Instructions that follow the rows of a tape are appended as they are. -/
theorem Lists.extend (h : t.Lists l) (hplaced : Placed t.rows l') :
    (t.extend l').Lists (l ++ l') := by
  induction l' generalizing t l with
  | nil => rwa [List.append_nil]
  | cons ins l' ih =>
    obtain ⟨hrow, hrest⟩ := hplaced
    have hins := h.append ins.op ins.args (t.rows + ins.op.resultCount)
    rw [← hrow, Nat.add_sub_cancel] at hins
    rw [← hrow] at hrest
    rw [List.append_cons, Tape.extend, List.foldl_cons, ← hrow]
    exact ih hins hrest

end Extend

section Compose

variable {t u : Tape F} {items items' : List Item} {tail tail' : List Instr} {choice : t.Choice u}

theorem relocation_independent (i : Fin u.independents) :
    (t.relocation u choice).row (i + 1) = choice i := by
  rw [Relocation.row, if_pos (show (i : Nat) + 1 ≤ (t.relocation u choice).renamed from i.2)]
  exact dif_pos ⟨Nat.succ_pos _, i.2⟩

@[simp] theorem params_compose : (t.compose u choice).params = t.params ++ u.params :=
  (extend_other (t.tables u) _).1

@[simp] theorem independents_compose : (t.compose u choice).independents = t.independents :=
  (extend_other (t.tables u) _).2.1

@[simp] theorem loads_compose : (t.compose u choice).loads = t.loads + u.loads :=
  (extend_other (t.tables u) _).2.2.1

@[simp] theorem registry_compose : (t.compose u choice).registry = t.registry ++ u.registry :=
  (extend_other (t.tables u) _).2.2.2

theorem lists_tables (t u : Tape F) : (t.tables u).Lists [] where
  ops := rfl
  args := rfl
  starts_size := rfl
  starts i hi := by
    rw [Nat.le_zero.mp hi]
    rfl
  resultRows := rfl

theorem Spells.instrs_eq (h : t.Spells items tail) (hc : t.Countable) :
    t.instrs = headInstrs t.independents ++ instrsOf items ++ tail :=
  h.lists.instrs_eq hc.args

theorem Recorded.lists_instrs [Scalar F] (h : t.Recorded) (hc : t.Countable) :
    t.Lists t.instrs := by
  obtain ⟨items, tail, hspells⟩ := h.spells
  rw [hspells.instrs_eq hc]
  exact hspells.lists

/-- A recorded tape without its `stop`. -/
theorem Spells.filter_stop (h : t.Spells items tail) (hc : t.Countable) :
    t.instrs.filter (fun ins => ins.op ≠ .stop) =
      headInstrs t.independents ++ instrsOf items := by
  have htail : tail.filter (fun ins => ins.op ≠ .stop) = [] := by
    rcases h.tail with rfl | rfl <;> rfl
  rw [h.instrs_eq hc, List.filter_append, htail, List.append_nil, List.filter_eq_self]
  intro ins hins
  rw [decide_eq_true_eq]
  rcases List.mem_append.mp hins with hins | hins
  · exact (op_headInstrs ins hins).2
  · exact (h.valid.op_ne ins hins).2.2

/-- A recorded tape without its start and its independents. -/
theorem Spells.filter_head (h : t.Spells items tail) (hc : t.Countable) :
    t.instrs.filter (fun ins => ins.op ≠ .start ∧ ins.op ≠ .independent) =
      instrsOf items ++ tail := by
  have hhead : (headInstrs t.independents).filter
      (fun ins => ins.op ≠ .start ∧ ins.op ≠ .independent) = [] := by
    rw [List.filter_eq_nil_iff]
    intro ins hins
    rcases (op_headInstrs ins hins).1 with hop | hop <;> simp [hop]
  rw [h.instrs_eq hc, List.append_assoc, List.filter_append, hhead, List.nil_append,
    List.filter_eq_self]
  intro ins hins
  rw [decide_eq_true_eq]
  rcases List.mem_append.mp hins with hins | hins
  · exact ⟨(h.valid.op_ne ins hins).1, (h.valid.op_ne ins hins).2.1⟩
  · rcases h.tail with rfl | rfl
    · cases hins
    · rw [List.mem_singleton.mp hins]
      exact ⟨nofun, nofun⟩

variable (h : t.Spells items tail) (h' : u.Spells items' [⟨.stop, [], u.rows - 1⟩])

include h h'

/-- The items of the second tape begin where those of the first end. -/
theorem Spells.shift_relocation (choice : t.Choice u) :
    (t.relocation u choice).shift (1 + u.independents) = t.rows ∧
      (t.relocation u choice).shift (u.rows - 1) + 1 = t.rows + rowCount (instrsOf items') := by
  have hpos := h.rows_pos
  have hrows := h'.rows
  unfold Relocation.shift relocation
  dsimp only
  omega

variable (hc' : u.Countable)

include hc'

/-- The items of both tapes, one after another. -/
theorem Spells.validItems_compose (choice : t.Choice u) :
    ValidItems (t.compose u choice).params.size (t.compose u choice).loads
      (t.compose u choice).registry.size (1 + t.independents)
      (items ++ items'.map (t.relocation u choice).item) := by
  simp only [params_compose, loads_compose, registry_compose, Array.size_append]
  have hmoved := (t.relocation u choice).valid_items h'.valid
    (show u.independents < 1 + u.independents by omega)
    fun ins hins => h'.args_length_lt hc' hins
  rw [(h.shift_relocation h' choice).1, h.rows, Nat.add_comm u.params.size, Nat.add_comm u.loads,
    Nat.add_comm u.registry.size] at hmoved
  exact validItems_append.mpr ⟨h.valid.mono (Nat.le_add_right _ _) (Nat.le_add_right _ _)
    (Nat.le_add_right _ _), hmoved⟩

variable (hc : t.Countable)

include hc

theorem Spells.instrs_compose :
    t.instrs.filter (fun ins => ins.op ≠ .stop) ++
        (u.instrs.filter fun ins => ins.op ≠ .start ∧ ins.op ≠ .independent).map
          (t.relocation u choice).instr =
      headInstrs t.independents ++
        instrsOf (items ++ items'.map (t.relocation u choice).item) ++
        [⟨.stop, [], t.rows + rowCount (instrsOf items') - 1⟩] := by
  have hstop : (t.relocation u choice).instr ⟨.stop, [], u.rows - 1⟩ =
      ⟨.stop, [], t.rows + rowCount (instrsOf items') - 1⟩ := by
    rw [← (h.shift_relocation h' choice).2]
    rfl
  rw [h.filter_stop hc, h'.filter_head hc', instrsOf_append, Relocation.instrsOf_map,
    List.map_append, List.map_singleton, hstop]
  simp only [List.append_assoc]

theorem Spells.rows_compose (choice : t.Choice u) :
    (t.compose u choice).rows = t.rows + rowCount (instrsOf items') := by
  rw [Tape.compose, rows_extend, h.instrs_compose h' hc' hc, rowCount_append, rowCount_append,
    (placed_headInstrs _).2, instrsOf_append, rowCount_append, Relocation.instrsOf_map,
    Relocation.rowCount_map, ← Nat.add_assoc (1 + t.independents), ← h.rows]
  exact Nat.zero_add _

/-- The variables of the second tape go to rows of the composed one. -/
theorem Spells.row_lt_rows {v : Nat} (hv : v < u.rows) :
    (t.relocation u choice).row v < (t.compose u choice).rows := by
  have hlast := (h.shift_relocation h' choice).2
  have hrenamed : (t.relocation u choice).renamed < u.rows := by
    have hrows := h'.rows
    show u.independents < u.rows
    omega
  have hlt := (Relocation.row_lt_iff hrenamed).mpr hv
  rw [h.rows_compose h' hc' hc, ← hlast]
  unfold Relocation.shift at hlt ⊢
  omega

/-- The composed tape holds the items of both tapes. -/
theorem Spells.compose (hbound : (t.compose u choice).rows < Index.argBound) :
    (t.compose u choice).Spells (items ++ items'.map (t.relocation u choice).item)
      [⟨.stop, [], (t.compose u choice).rows - 1⟩] := by
  have hvalid := h.validItems_compose h' hc' choice
  have hrows := h.rows_compose h' hc' hc choice
  have hcount : rowCount (instrsOf (items ++ items'.map (t.relocation u choice).item)) =
      rowCount (instrsOf items) + rowCount (instrsOf items') := by
    rw [instrsOf_append, rowCount_append, Relocation.instrsOf_map, Relocation.rowCount_map]
  have hfirst := h.rows
  refine ⟨?_, ?_, ?_, hbound, Or.inr rfl⟩
  · rw [independents_compose, hrows, ← h.instrs_compose h' hc' hc]
    refine (lists_tables t u).extend ?_
    rw [h.instrs_compose h' hc' hc, placed_append, placed_append, rowCount_append,
      (placed_headInstrs _).2, hcount]
    have hnone : (t.tables u).rows = 0 := rfl
    refine ⟨⟨(placed_headInstrs _).1, ?_⟩, ?_, trivial⟩
    · rw [hnone, Nat.zero_add]
      exact hvalid.placed
    · show t.rows + rowCount (instrsOf items') - 1 + 1 = (t.tables u).rows + _ + 0
      omega
  · rw [independents_compose]
    exact hvalid
  · rw [independents_compose, hrows, hcount]
    omega

end Compose

end Tape

end JetTape
