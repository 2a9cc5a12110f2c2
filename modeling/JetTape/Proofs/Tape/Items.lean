import JetTape.Proofs.Tape.Tables
import JetTape.Proofs.Tape.Valid

/-!
Recorded programs in larger units. After its start and its independents a tape is a sequence of
items: plain instructions and whole call blocks.
-/
namespace JetTape

/-- A call block: a marker, its arguments, its results, and the marker again. -/
structure Block where
  opening : Instr
  args : List Instr
  results : List Instr
  closing : Instr

def Block.instrs (b : Block) : List Instr := b.opening :: b.args ++ b.results ++ [b.closing]

/-- A block as it is recorded after `n` rows, `p` parameters and `k` operators. -/
structure Block.Valid (n p k : Nat) (b : Block) : Prop where
  opens : b.opening.op = .callMarker
  closes : b.closing.op = .callMarker
  header : ∃ handle callId, handle < k ∧
    b.opening.args = [handle, callId, Index.toArg b.args.length, Index.toArg b.results.length]
  repeats : b.closing.args = b.opening.args
  args : ∀ ins ∈ b.args, ∃ a : Operand, a.Valid n p ∧ ins.op = .callArg a.source ∧
    ins.args = [a.index]
  results : ∀ ins ∈ b.results, ins.op = .callResult .var ∨
    ∃ i, i < p ∧ ins.op = .callResult .par ∧ ins.args = [i]
  placed : Placed n b.instrs

theorem Block.Valid.mono {n p k p' k' : Nat} {b : Block} (h : b.Valid n p k) (hp : p ≤ p')
    (hk : k ≤ k') : b.Valid n p' k' where
  opens := h.opens
  closes := h.closes
  header := by
    obtain ⟨handle, callId, hlt, hargs⟩ := h.header
    exact ⟨handle, callId, Nat.lt_of_lt_of_le hlt hk, hargs⟩
  repeats := h.repeats
  args := by
    intro ins hins
    obtain ⟨a, ha, hop, hargs⟩ := h.args ins hins
    exact ⟨a, ha.mono (Nat.le_refl n) hp, hop, hargs⟩
  results := by
    intro ins hins
    rcases h.results ins hins with hvar | ⟨i, hi, hpar⟩
    · exact Or.inl hvar
    · exact Or.inr ⟨i, Nat.lt_of_lt_of_le hi hp, hpar⟩
  placed := h.placed

/-- The rows of a block are those of its variable results. -/
theorem Block.Valid.eq_callResult {n p k : Nat} {b : Block} (h : b.Valid n p k) {ins : Instr}
    (hins : ins ∈ b.instrs) (hpos : 0 < ins.op.resultCount) :
    ins ∈ b.results ∧ ins.op = .callResult .var := by
  simp only [Block.instrs, List.mem_append, List.mem_cons, List.not_mem_nil, or_false] at hins
  rcases hins with ((rfl | hins) | hins) | rfl
  · simp [h.opens, Opcode.resultCount] at hpos
  · obtain ⟨a, -, hop, -⟩ := h.args ins hins
    simp [hop, Opcode.resultCount] at hpos
  · rcases h.results ins hins with hop | ⟨i, -, hop, -⟩
    · exact ⟨hins, hop⟩
    · simp [hop, Opcode.resultCount] at hpos
  · simp [h.closes, Opcode.resultCount] at hpos

/-- A variable result has one of the rows of its block. -/
theorem Block.Valid.row_of_result {n p k : Nat} {b : Block} (h : b.Valid n p k) {ins : Instr}
    (hins : ins ∈ b.results) (hop : ins.op = .callResult .var) :
    n ≤ ins.row ∧ ins.row < n + rowCount b.instrs :=
  h.placed.owner_bounds (by simp [Block.instrs, hins]) (by simp [hop, Opcode.resultCount])
    (Nat.le_refl _)

/-- The arguments of a block stand behind the rows before it. -/
theorem Block.Valid.row_of_arg {n p k : Nat} {b : Block} (h : b.Valid n p k) :
    ∀ ins ∈ b.args, ins.row + 1 = n := by
  have hcount : b.opening.op.resultCount = 0 := by rw [h.opens]; rfl
  obtain ⟨⟨-, hargs⟩, -⟩ := placed_append.mp (placed_append.mp h.placed).1
  rw [hcount] at hargs
  refine hargs.row_of_none fun ins hins => ?_
  obtain ⟨a, -, hop, -⟩ := h.args ins hins
  rw [hop]
  rfl

/-- Between its markers a block has no other. -/
theorem Block.Valid.not_marker {n p k : Nat} {b : Block} (h : b.Valid n p k) :
    ∀ ins ∈ b.args ++ b.results, ins.op ≠ .callMarker := by
  intro ins hins
  rcases List.mem_append.mp hins with hins | hins
  · obtain ⟨a, -, hop, -⟩ := h.args ins hins
    simp [hop]
  · rcases h.results ins hins with hop | ⟨i, -, hop, -⟩ <;> simp [hop]

/-- A block holds no instruction that stands by itself. -/
theorem Block.Valid.not_plain {n p k : Nat} {b : Block} (h : b.Valid n p k) :
    ∀ ins ∈ b.instrs, ins.op.isPlain = false := by
  intro ins hins
  simp only [Block.instrs, List.mem_append, List.mem_cons, List.not_mem_nil, or_false] at hins
  rcases hins with ((rfl | hins) | hins) | rfl
  · rw [h.opens]
    rfl
  · obtain ⟨a, -, hop, -⟩ := h.args ins hins
    rw [hop]
    rfl
  · rcases h.results ins hins with hop | ⟨i, -, hop, -⟩ <;> rw [hop] <;> rfl
  · rw [h.closes]
    rfl

inductive Item where
  | plain (ins : Instr)
  | call (b : Block)

namespace Item

def instrs : Item → List Instr
  | plain ins => [ins]
  | call b => b.instrs

theorem instrs_ne_nil (item : Item) : item.instrs ≠ [] := by
  cases item <;> simp [instrs, Block.instrs]

/-- How many instructions the item has. -/
def size (item : Item) : Nat := item.instrs.length

/-- An item as it is recorded after `n` rows, `p` parameters, `m` loads and `k` operators. -/
def Valid (n p m k : Nat) : Item → Prop
  | plain ins => Instr.Valid n p m ins.op ins.args ∧ Placed n [ins]
  | call b => b.Valid n p k

theorem Valid.mono {n p m k p' m' k' : Nat} {item : Item} (h : item.Valid n p m k) (hp : p ≤ p')
    (hm : m ≤ m') (hk : k ≤ k') : item.Valid n p' m' k' := by
  cases item with
  | plain ins => exact ⟨h.1.mono hp hm, h.2⟩
  | call b => exact Block.Valid.mono h hp hk

theorem Valid.placed {n p m k : Nat} {item : Item} (h : item.Valid n p m k) :
    Placed n item.instrs := by
  cases item with
  | plain ins => exact h.2
  | call b => exact Block.Valid.placed h

/-- Items hold no `start`, no `independent` and no `stop`. -/
theorem Valid.op_ne {n p m k : Nat} {item : Item} (h : item.Valid n p m k) :
    ∀ ins ∈ item.instrs, ins.op ≠ .start ∧ ins.op ≠ .independent ∧ ins.op ≠ .stop := by
  intro ins hins
  cases item with
  | plain i =>
    unfold instrs at hins
    rw [List.mem_singleton] at hins
    subst hins
    have hplain := h.1.isPlain
    refine ⟨?_, ?_, ?_⟩ <;> intro hop <;> rw [hop] at hplain <;> cases hplain
  | call b =>
    have hb : b.Valid n p k := h
    simp only [instrs, Block.instrs, List.mem_append, List.mem_cons, List.mem_nil_iff,
      or_false] at hins
    rcases hins with ((rfl | hins) | hins) | rfl
    · simp [hb.opens]
    · obtain ⟨a, -, hop, -⟩ := hb.args ins hins
      simp [hop]
    · rcases hb.results ins hins with hop | ⟨i, -, hop, -⟩ <;> simp [hop]
    · simp [hb.closes]

end Item

/-- The instructions of a sequence of items. -/
def instrsOf (items : List Item) : List Instr := items.flatMap Item.instrs

@[simp] theorem instrsOf_nil : instrsOf [] = [] := rfl

@[simp] theorem instrsOf_cons (item : Item) (items : List Item) :
    instrsOf (item :: items) = item.instrs ++ instrsOf items := rfl

@[simp] theorem instrsOf_append (items items' : List Item) :
    instrsOf (items ++ items') = instrsOf items ++ instrsOf items' := by
  simp [instrsOf]

@[simp] theorem instrsOf_map_plain (l : List Instr) : instrsOf (l.map .plain) = l := by
  induction l with
  | nil => rfl
  | cons ins l ih => rw [List.map_cons, instrsOf_cons, ih, Item.instrs, List.singleton_append]

/-- Items as they are recorded from row `n` on, one after another. -/
def ValidItems (p m k : Nat) : Nat → List Item → Prop
  | _, [] => True
  | n, item :: rest => item.Valid n p m k ∧ ValidItems p m k (n + rowCount item.instrs) rest

theorem validItems_append {p m k n : Nat} {items items' : List Item} :
    ValidItems p m k n (items ++ items') ↔
      ValidItems p m k n items ∧ ValidItems p m k (n + rowCount (instrsOf items)) items' := by
  induction items generalizing n with
  | nil => simp [ValidItems]
  | cons item items ih =>
    rw [List.cons_append, ValidItems, ValidItems, ih, instrsOf_cons, rowCount_append,
      ← Nat.add_assoc, and_assoc]

theorem ValidItems.mono {p m k p' m' k' n : Nat} {items : List Item}
    (h : ValidItems p m k n items) (hp : p ≤ p') (hm : m ≤ m') (hk : k ≤ k') :
    ValidItems p' m' k' n items := by
  induction items generalizing n with
  | nil => trivial
  | cons item items ih => exact ⟨h.1.mono hp hm hk, ih h.2⟩

theorem ValidItems.exists_valid {p m k n : Nat} {items : List Item} (h : ValidItems p m k n items)
    {item : Item} (hitem : item ∈ items) : ∃ n', item.Valid n' p m k := by
  induction items generalizing n with
  | nil => cases hitem
  | cons first items ih =>
    rcases List.mem_cons.mp hitem with rfl | hitem
    · exact ⟨n, h.1⟩
    · exact ih h.2 hitem

theorem ValidItems.placed {p m k n : Nat} {items : List Item} (h : ValidItems p m k n items) :
    Placed n (instrsOf items) := by
  induction items generalizing n with
  | nil => trivial
  | cons item items ih =>
    rw [instrsOf_cons, placed_append]
    exact ⟨h.1.placed, ih h.2⟩

theorem ValidItems.op_ne {p m k n : Nat} {items : List Item} (h : ValidItems p m k n items) :
    ∀ ins ∈ instrsOf items, ins.op ≠ .start ∧ ins.op ≠ .independent ∧ ins.op ≠ .stop := by
  induction items generalizing n with
  | nil => simp
  | cons item items ih =>
    intro ins hins
    rw [instrsOf_cons, List.mem_append] at hins
    rcases hins with hins | hins
    · exact h.1.op_ne ins hins
    · exact ih h.2 ins hins

/-- The place of an instruction in one of the items. -/
theorem exists_item_at {items : List Item} {c : Nat} {ins : Instr}
    (hget : (instrsOf items)[c]? = some ins) :
    ∃ before item after d, items = before ++ item :: after ∧
      c = (instrsOf before).length + d ∧ item.instrs[d]? = some ins := by
  induction items generalizing c with
  | nil => cases hget
  | cons item rest ih =>
    rw [instrsOf_cons, List.getElem?_append] at hget
    split at hget
    · exact ⟨[], item, rest, c, rfl, (Nat.zero_add c).symm, hget⟩
    · obtain ⟨before, item', after, d, rfl, hc, hd⟩ := ih hget
      refine ⟨item :: before, item', after, d, rfl, ?_, hd⟩
      rw [instrsOf_cons, List.length_append]
      omega

end JetTape
