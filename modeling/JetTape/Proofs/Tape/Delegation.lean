import JetTape.Proofs.Sweep.Inputs
import JetTape.Proofs.Tape.Composition
import JetTape.Proofs.Tape.Invariant
import JetTape.Proofs.Tape.Numbering

/-!
Delegated instructions. On a tape an instruction with one result can give way to the call of an
operator that takes its variable operands and has its result. All rows stay what they are, so the
tape has the shape of a recording again.
-/
namespace JetTape

/-- A call with variables from the given rows as its arguments and row `z` as its result. -/
def callBlock (handle callId : Nat) (rows : List Nat) (z : Nat) : Block where
  opening := ⟨.callMarker, [handle, callId, Index.toArg rows.length, Index.toArg 1], z - 1⟩
  args := rows.map fun x => ⟨.callArg .var, [x], z - 1⟩
  results := [⟨.callResult .var, [], z⟩]
  closing := ⟨.callMarker, [handle, callId, Index.toArg rows.length, Index.toArg 1], z⟩

section CallBlock

variable {handle callId n p k z : Nat} {rows : List Nat}

@[simp] theorem size_callBlock :
    (Item.call (callBlock handle callId rows z)).size = rows.length + 3 := by
  simp [Item.size, Item.instrs, Block.instrs, callBlock]

theorem rowCount_callArgs :
    rowCount (rows.map fun x => (⟨.callArg .var, [x], z⟩ : Instr)) = 0 := by
  induction rows with
  | nil => rfl
  | cons x rows ih => exact (Nat.zero_add _).trans ih

theorem placed_callArgs (hz : 0 < z) :
    Placed z (rows.map fun x => ⟨.callArg .var, [x], z - 1⟩) := by
  induction rows with
  | nil => trivial
  | cons x rows ih => exact ⟨Nat.sub_add_cancel hz, ih⟩

/-- The call has one row, as an instruction with one result has. -/
@[simp] theorem rowCount_callBlock :
    rowCount (callBlock handle callId rows z).instrs = 1 := by
  simp [Block.instrs, callBlock, rowCount_callArgs, Opcode.resultCount]

theorem valid_callBlock (hrows : ∀ x ∈ rows, Source.var.Valid z p x) (hhandle : handle < k)
    (hz : 0 < z) : (callBlock handle callId rows z).Valid z p k where
  opens := rfl
  closes := rfl
  header := ⟨handle, callId, hhandle, by simp [callBlock]⟩
  repeats := rfl
  args := by
    intro ins hins
    obtain ⟨x, hx, rfl⟩ := List.mem_map.mp hins
    exact ⟨.var x, hrows x hx, rfl, rfl⟩
  results := by
    intro ins hins
    rw [List.mem_singleton.mp hins]
    exact Or.inl rfl
  placed := by
    rw [Block.instrs, List.cons_append, List.cons_append, Placed, placed_append, placed_append]
    simp only [callBlock, rowCount_append, rowCount_callArgs, Opcode.resultCount, rowCount_cons,
      rowCount_nil, Nat.add_zero, Nat.zero_add, Placed, and_true]
    exact ⟨Nat.sub_add_cancel hz, placed_callArgs hz⟩

end CallBlock

namespace Tape

variable {F : Type}

/-- The tables of the tape with one more operator, and no instructions yet. -/
def tablesWith (t : Tape F) (operator : Operator F) : Tape F where
  ops := #[]
  argStart := #[0]
  args := #[]
  resultRows := #[]
  params := t.params
  independents := t.independents
  rows := 0
  loads := t.loads
  registry := t.registry.push operator

/-- The tape with a call of one more operator in place of instruction `i`, which is `ins`. -/
def delegate (t : Tape F) (i : Nat) (ins : Instr) (callId : Nat) (operator : Operator F) :
    Tape F :=
  (t.tablesWith operator).extend (t.instrs.take i ++
    (callBlock t.registry.size callId ins.rows ins.row).instrs ++ t.instrs.drop (i + 1))

section Delegate

variable {t : Tape F} {items before after : List Item} {tail : List Instr} {i callId : Nat}
variable {ins : Instr} {operator : Operator F}

theorem lists_tablesWith (t : Tape F) (operator : Operator F) :
    (t.tablesWith operator).Lists [] where
  ops := rfl
  args := rfl
  starts_size := rfl
  starts i hi := by
    rw [Nat.le_zero.mp hi]
    rfl
  resultRows := rfl

@[simp] theorem params_delegate : (t.delegate i ins callId operator).params = t.params :=
  (extend_other (t.tablesWith operator) _).1

@[simp] theorem independents_delegate :
    (t.delegate i ins callId operator).independents = t.independents :=
  (extend_other (t.tablesWith operator) _).2.1

@[simp] theorem loads_delegate : (t.delegate i ins callId operator).loads = t.loads :=
  (extend_other (t.tablesWith operator) _).2.2.1

@[simp] theorem registry_delegate :
    (t.delegate i ins callId operator).registry = t.registry.push operator :=
  (extend_other (t.tablesWith operator) _).2.2.2

variable (h : t.Spells (before ++ .plain ins :: after) tail) (hc : t.Countable)
variable (hone : ins.op.resultCount = 1)

include h

/-- An instruction with one result has the row after those before it. -/
theorem Spells.row_eq (hone : ins.op.resultCount = 1) :
    ins.row = 1 + t.independents + rowCount (instrsOf before) := by
  have hvalid := (validItems_append.mp h.valid).2.1
  have hrow : ins.row + 1 = _ + ins.op.resultCount := hvalid.placed.1
  omega

include hc

/-- The instructions with the call in place of instruction `i`. -/
theorem Spells.instrs_delegate (hi : i = t.independents + 1 + (instrsOf before).length)
    (b : Block) :
    t.instrs.take i ++ b.instrs ++ t.instrs.drop (i + 1) =
      headInstrs t.independents ++ instrsOf (before ++ .call b :: after) ++ tail := by
  have hinstrs : t.instrs = (headInstrs t.independents ++ instrsOf before) ++
      (ins :: (instrsOf after ++ tail)) := by
    rw [h.instrs_eq hc]
    simp [Item.instrs]
  have hlen : (headInstrs t.independents ++ instrsOf before).length = i := by
    rw [List.length_append, length_headInstrs, hi]
  rw [hinstrs, ← hlen, List.take_left, List.drop_length_add_append]
  simp [Item.instrs]

include hone

/-- The items of the tape with the call among them. -/
theorem Spells.validItems_delegate (callId : Nat) (operator : Operator F) :
    ValidItems t.params.size t.loads (t.registry.push operator).size (1 + t.independents)
      (before ++ .call (callBlock t.registry.size callId ins.rows ins.row) :: after) := by
  have hrow := h.row_eq hone
  have hargs : ins.args.length < Index.argBound :=
    h.args_length_lt hc (by simp [Item.instrs])
  have hpush : t.registry.size < (t.registry.push operator).size := by simp
  have hle := Nat.le_of_lt hpush
  obtain ⟨hbefore, hins, hafter⟩ := validItems_append.mp h.valid
  have hnext : rowCount (Item.plain ins).instrs =
      rowCount (callBlock t.registry.size callId ins.rows ins.row).instrs := by
    rw [rowCount_callBlock, Item.instrs, rowCount_cons, rowCount_nil, hone]
  rw [← hrow] at hins hafter
  rw [hnext] at hafter
  refine validItems_append.mpr ⟨hbefore.mono (Nat.le_refl _) (Nat.le_refl _) hle, ?_⟩
  rw [← hrow]
  exact ⟨valid_callBlock (hins.1.rows hargs) hpush (by omega),
    hafter.mono (Nat.le_refl _) (Nat.le_refl _) hle⟩

omit hc in
/-- The call has the row of the instruction, so all other rows stay what they are. -/
theorem Spells.rows_eq_delegate :
    t.rows = 1 + t.independents + rowCount (instrsOf
      (before ++ .call (callBlock t.registry.size callId ins.rows ins.row) :: after)) := by
  rw [h.rows]
  simp only [instrsOf_append, instrsOf_cons, rowCount_append, Item.instrs, rowCount_callBlock,
    rowCount_cons, rowCount_nil, hone]

theorem Spells.rows_delegate (hi : i = t.independents + 1 + (instrsOf before).length) :
    (t.delegate i ins callId operator).rows = t.rows := by
  have htail : rowCount tail = 0 := by rcases h.tail with rfl | rfl <;> rfl
  rw [delegate, rows_extend, h.instrs_delegate hc hi, rowCount_append, rowCount_append,
    (placed_headInstrs _).2, htail, ← h.rows_eq_delegate hone]
  exact Nat.zero_add _

/-- The tape holds the call in place of the instruction. -/
theorem Spells.delegate (hi : i = t.independents + 1 + (instrsOf before).length) :
    (t.delegate i ins callId operator).Spells
      (before ++ .call (callBlock t.registry.size callId ins.rows ins.row) :: after) tail := by
  have hrows : (t.delegate i ins callId operator).rows = t.rows := h.rows_delegate hc hone hi
  have hvalid := h.validItems_delegate hc hone callId operator
  have hpos := h.rows_pos
  refine ⟨?_, ?_, ?_, hrows ▸ h.bound, hrows ▸ h.tail⟩
  · rw [independents_delegate, ← h.instrs_delegate hc hi]
    refine (lists_tablesWith t operator).extend ?_
    rw [h.instrs_delegate hc hi, placed_append, placed_append, rowCount_append,
      (placed_headInstrs _).2, ← h.rows_eq_delegate hone]
    have hnone : (t.tablesWith operator).rows = 0 := rfl
    rw [hnone, Nat.zero_add]
    refine ⟨⟨(placed_headInstrs _).1, hvalid.placed⟩, ?_⟩
    rcases h.tail with rfl | rfl
    · trivial
    · exact ⟨by simp only [Opcode.resultCount]; omega, trivial⟩
  · rw [params_delegate, loads_delegate, registry_delegate, independents_delegate]
    exact hvalid
  · rw [hrows, independents_delegate]
    exact h.rows_eq_delegate hone

end Delegate

end Tape

end JetTape
