import JetTape.Proofs.Tape.Items
import JetTape.Proofs.Tape.Roles

/-!
Relocations. To put the instructions of one tape behind those of another, what their arguments stand
for is renamed: the independents become variables of the other tape, and all else is shifted past
what the other tape holds. Valid instructions stay valid, and their rows stay consecutive.
-/
namespace JetTape

/-- Where the rows, parameters, load slots and operators of a tape go. Its first `renamed` variables
go where `target` says and the others behind `earlier` variables. -/
structure Relocation where
  /-- How many rows the tape has. -/
  rows : Nat
  renamed : Nat
  target : Nat → Nat
  earlier : Nat
  params : Nat
  slots : Nat
  handles : Nat
  /-- No variable becomes the phantom row, which stays where it is. -/
  target_pos : ∀ v ≤ renamed, 0 < target v ↔ 0 < v
  target_le : ∀ v ≤ renamed, target v ≤ earlier

namespace Relocation

variable (r : Relocation)

/-- Where a row goes that is not renamed. A number of rows that includes all renamed ones goes to
the number of rows up to the last of them. -/
def shift (v : Nat) : Nat := r.earlier + (v - r.renamed)

def row (v : Nat) : Nat := if v ≤ r.renamed then r.target v else r.shift v

/-- What an argument becomes. -/
def arg : Role → Nat → Nat
  | .row, x => r.row x
  | .par, i => i + r.params
  | .slot, s => s + r.slots
  | .handle, h => h + r.handles
  | .literal, x => x

/-- What arguments in the given roles become. -/
def along : List Role → List Nat → List Nat
  | role :: roles, x :: args => r.arg role x :: along roles args
  | _, args => args

def instr (ins : Instr) : Instr :=
  ⟨ins.op, r.along (ins.op.roles ins.args) ins.args, r.shift ins.row⟩

def operand : Operand → Operand
  | .var x => .var (r.row x)
  | .par i => .par (i + r.params)

def block (b : Block) : Block where
  opening := r.instr b.opening
  args := b.args.map r.instr
  results := b.results.map r.instr
  closing := r.instr b.closing

def item : Item → Item
  | .plain ins => .plain (r.instr ins)
  | .call b => .call (r.block b)

/-- The relocation that leaves the instructions of a tape as they are. -/
def refl (rows : Nat) : Relocation where
  rows := rows
  renamed := 0
  target := id
  earlier := 0
  params := 0
  slots := 0
  handles := 0
  target_pos _ _ := Iff.rfl
  target_le _ h := h

variable {r} {n p m k v z : Nat}

theorem row_of_lt (h : r.renamed < v) : r.row v = r.shift v := if_neg (Nat.not_le.mpr h)

theorem row_pos_iff : 0 < r.row v ↔ 0 < v := by
  unfold row shift
  split
  · exact r.target_pos v ‹_›
  · omega

/-- Earlier rows stay earlier, and later ones later. -/
theorem row_lt_iff (h : r.renamed < z) : r.row v < r.shift z ↔ v < z := by
  unfold row shift
  split
  · have := r.target_le v ‹_›
    omega
  · omega

theorem eq_of_row_eq (h : r.renamed < z) (heq : r.row v = r.shift z) : v = z := by
  have hlt : ¬ v < z := fun hlt => Nat.ne_of_lt ((row_lt_iff h).mpr hlt) heq
  rw [row_of_lt (by omega)] at heq
  unfold shift at heq
  omega

theorem shift_sub {d : Nat} (h : r.renamed + d < z) : r.shift z - d = r.shift (z - d) := by
  unfold shift
  omega

@[simp] theorem op_instr (ins : Instr) : (r.instr ins).op = ins.op := rfl

@[simp] theorem source_operand (a : Operand) : (r.operand a).source = a.source := by
  cases a <;> rfl

theorem index_operand (a : Operand) : (r.operand a).index = r.arg a.source.role a.index := by
  cases a <;> rfl

@[simp] theorem flag_operand (a : Operand) (bit : Nat) : (r.operand a).flag bit = a.flag bit := by
  cases a <;> rfl

@[simp] theorem chooseFlags_operand (left right ifTrue ifFalse : Operand) :
    chooseFlags (r.operand left) (r.operand right) (r.operand ifTrue) (r.operand ifFalse) =
      chooseFlags left right ifTrue ifFalse := by
  simp only [chooseFlags, flag_operand]

theorem arg_row : r.arg .row = r.row := rfl

theorem valid_row (h : Source.var.Valid n p v) (hn : r.renamed < n) :
    Source.var.Valid (r.shift n) (p + r.params) (r.row v) :=
  ⟨row_pos_iff.mpr h.1, (row_lt_iff hn).mpr h.2⟩

theorem valid_source {s : Source} {i : Nat} (h : s.Valid n p i) (hn : r.renamed < n) :
    s.Valid (r.shift n) (p + r.params) (r.arg s.role i) := by
  cases s with
  | var => exact valid_row h hn
  | par => exact Nat.add_lt_add_right h _

theorem valid_operand {a : Operand} (h : a.Valid n p) (hn : r.renamed < n) :
    (r.operand a).Valid (r.shift n) (p + r.params) := by
  rw [Operand.valid_iff, source_operand, index_operand]
  exact valid_source (Operand.valid_iff.mp h) hn

section Along

theorem along_literal (l : List Nat) : r.along (List.replicate l.length .literal) l = l := by
  induction l with
  | nil => rfl
  | cons x l ih => rw [List.length_cons, List.replicate_succ, along, ih, arg]

theorem along_row (l args : List Nat) (roles : List Role) :
    r.along (List.replicate l.length .row ++ roles) (l ++ args) =
      l.map r.row ++ r.along roles args := by
  induction l with
  | nil => rfl
  | cons x l ih =>
    rw [List.length_cons, List.replicate_succ, List.cons_append, List.cons_append, along, ih]
    rfl

/-- The arguments of an operation on two operands. -/
theorem along_pair {sources : List Source} {s t : Source} (hf : sources = [s, t]) (a b : Nat) :
    r.along (sources.map Source.role) [a, b] = [r.arg s.role a, r.arg t.role b] := by
  rw [hf]
  rfl

theorem along_choose (code : Nat) (left right ifTrue ifFalse : Operand) :
    let args := [code, chooseFlags left right ifTrue ifFalse, left.index, right.index,
      ifTrue.index, ifFalse.index]
    r.along (Opcode.choose.roles args) args =
      [code, chooseFlags left right ifTrue ifFalse, (r.operand left).index,
        (r.operand right).index, (r.operand ifTrue).index, (r.operand ifFalse).index] := by
  obtain ⟨h0, h1, h2, h3⟩ := testBit_chooseFlags left right ifTrue ifFalse
  simp only [index_operand, Opcode.roles, List.map_cons, List.map_nil, List.getD_cons_succ,
    List.getD_cons_zero, Role.flagged_eq h0, Role.flagged_eq h1, Role.flagged_eq h2,
    Role.flagged_eq h3, List.cons_append, List.nil_append]
  rfl

theorem along_sum (i : Nat) {xs ys : List Nat} (hcount : xs.length + ys.length < Index.argBound) :
    let args := [Index.toArg xs.length, Index.toArg ys.length, i] ++ xs ++ ys ++
      [Index.toArg (xs.length + ys.length)]
    r.along (Opcode.sum.roles args) args =
      [Index.toArg (xs.map r.row).length, Index.toArg (ys.map r.row).length, i + r.params] ++
        xs.map r.row ++ ys.map r.row ++
        [Index.toArg ((xs.map r.row).length + (ys.map r.row).length)] := by
  have hxs := Index.toArg_of_lt (show xs.length < Index.argBound by omega)
  have hys := Index.toArg_of_lt (show ys.length < Index.argBound by omega)
  have hrows := along_row (r := r) (xs ++ ys) [Index.toArg (xs.length + ys.length)] [.literal]
  rw [List.length_append] at hrows
  simp only [Opcode.roles, List.cons_append, List.nil_append, List.getD_cons_succ,
    List.getD_cons_zero, hxs, hys, List.length_map, along, hrows, List.map_append]
  rfl

theorem along_skip (code : Nat) (left right : Operand) (l : List Nat) :
    let args := [code, left.flag 1 + right.flag 2, left.index, right.index] ++ l
    r.along (Opcode.skip.roles args) args =
      [code, left.flag 1 + right.flag 2, (r.operand left).index, (r.operand right).index] ++ l := by
  obtain ⟨h0, h1⟩ := testBit_pair left right
  simp only [index_operand, Opcode.roles, List.map_cons, List.map_nil, List.cons_append,
    List.nil_append, List.getD_cons_succ, List.getD_cons_zero, Role.flagged_eq h0,
    Role.flagged_eq h1, along, List.length_cons, Nat.add_assoc, Nat.reduceAdd, Nat.add_sub_cancel,
    along_literal]
  rfl

end Along

/-- An instruction that is valid on a tape is valid where it is moved. -/
theorem valid_along {op : Opcode} {args : List Nat} (h : Instr.Valid n p m op args)
    (hn : r.renamed < n) (hargs : args.length < Index.argBound) :
    Instr.Valid (r.shift n) (p + r.params) (m + r.slots) op (r.along (op.roles args) args) := by
  cases h with
  | constant hi => exact .constant (Nat.add_lt_add_right hi _)
  | arithmetic f hf ha hb =>
    rw [Opcode.roles, along_pair hf]
    exact .arithmetic f hf (valid_source ha hn) (valid_source hb hn)
  | power f hf ha hb =>
    rw [Opcode.roles, along_pair hf]
    exact .power f hf (valid_source ha hn) (valid_source hb hn)
  | elementary f hx => exact .elementary f (valid_row hx hn)
  | erf hx hi hk =>
    exact .erf (valid_row hx hn) (Nat.add_lt_add_right hi _) (Nat.add_lt_add_right hk _)
  | discrete f hx => exact .discrete f (valid_row hx hn)
  | @choose rel left right ifTrue ifFalse hl hr ht hf =>
    rw [along_choose, ← chooseFlags_operand (r := r) left right ifTrue ifFalse]
    exact .choose rel (valid_operand hl hn) (valid_operand hr hn) (valid_operand ht hn)
      (valid_operand hf hn)
  | @sum i xs ys hi hx =>
    simp only [List.length_append, List.length_cons, List.length_nil] at hargs
    rw [along_sum i (by omega)]
    refine .sum (Nat.add_lt_add_right hi _) ?_
    rw [← List.map_append]
    intro y hy
    obtain ⟨x, hmem, rfl⟩ := List.mem_map.mp hy
    exact valid_row (hx x hmem) hn
  | @skip rel left right ifTrue ifFalse hl hr =>
    have hskip := Instr.Valid.skip (m := m + r.slots) rel ifTrue ifFalse (valid_operand hl hn)
      (valid_operand hr hn)
    have hmoved := along_skip (r := r) rel.code left right
      ([Index.toArg ifTrue.length, Index.toArg ifFalse.length] ++ ifTrue ++ ifFalse ++
        [Index.toArg (ifTrue.length + ifFalse.length)])
    simp only [flag_operand, List.append_assoc, List.cons_append, List.nil_append] at hskip hmoved ⊢
    rwa [hmoved]
  | load offset hi hs =>
    have hload := Instr.Valid.load offset (valid_operand hi hn) (Nat.add_lt_add_right hs r.slots)
    rwa [source_operand, index_operand] at hload
  | store offset hi hv =>
    have hstore := Instr.Valid.store (m := m + r.slots) offset (valid_operand hi hn)
      (valid_operand hv hn)
    rwa [source_operand, source_operand, index_operand, index_operand] at hstore
  | compare f hl hr => exact .compare f (valid_source hl hn) (valid_source hr hn)
  | @print position value before after hp hv =>
    have hprint := Instr.Valid.print (m := m + r.slots) before after (valid_operand hp hn)
      (valid_operand hv hn)
    obtain ⟨h0, h1⟩ := testBit_pair position value
    rw [index_operand, index_operand, flag_operand, flag_operand] at hprint
    simp only [Opcode.roles, List.getD_cons_succ, List.getD_cons_zero, Role.flagged_eq h0,
      Role.flagged_eq h1]
    exact hprint

theorem rowCount_map (l : List Instr) : rowCount (l.map r.instr) = rowCount l := by
  induction l with
  | nil => rfl
  | cons ins l ih => rw [List.map_cons, rowCount_cons, rowCount_cons, ih, op_instr]

/-- Rows that are not renamed stay consecutive. -/
theorem placed_map {l : List Instr} (h : Placed n l) (hn : r.renamed < n) :
    Placed (r.shift n) (l.map r.instr) := by
  induction l generalizing n with
  | nil => trivial
  | cons ins l ih =>
    obtain ⟨hrow, hrest⟩ := h
    have hnext : r.shift n + ins.op.resultCount = r.shift (n + ins.op.resultCount) := by
      unfold shift
      omega
    refine ⟨?_, ?_⟩
    · show r.shift ins.row + 1 = r.shift n + ins.op.resultCount
      unfold shift
      omega
    · rw [op_instr, hnext]
      exact ih hrest (Nat.lt_add_right _ hn)

theorem instrs_block (b : Block) : (r.block b).instrs = b.instrs.map r.instr := by
  simp [Block.instrs, block]

@[simp] theorem instrs_item (item : Item) : (r.item item).instrs = item.instrs.map r.instr := by
  cases item with
  | plain ins => rfl
  | call b => exact instrs_block b

theorem instrsOf_map (items : List Item) :
    instrsOf (items.map r.item) = (instrsOf items).map r.instr := by
  induction items with
  | nil => rfl
  | cons item items ih => rw [List.map_cons, instrsOf_cons, ih, instrs_item, instrsOf_cons,
      List.map_append]

section Blocks

variable {ins : Instr} {b : Block}

theorem args_callArg {a : Operand} (hop : ins.op = .callArg a.source)
    (hargs : ins.args = [a.index]) : (r.instr ins).args = [(r.operand a).index] := by
  rw [index_operand, instr, hop, hargs]
  rfl

theorem args_callResult {i : Nat} (hop : ins.op = .callResult .par) (hargs : ins.args = [i]) :
    (r.instr ins).args = [i + r.params] := by
  rw [instr, hop, hargs]
  rfl

theorem args_callMarker {handle callId args results : Nat} (hop : ins.op = .callMarker)
    (hargs : ins.args = [handle, callId, args, results]) :
    (r.instr ins).args = [handle + r.handles, callId, args, results] := by
  rw [instr, hop, hargs]
  rfl

theorem valid_block (h : b.Valid n p k) (hn : r.renamed < n) :
    (r.block b).Valid (r.shift n) (p + r.params) (k + r.handles) where
  opens := h.opens
  closes := h.closes
  header := by
    obtain ⟨handle, callId, hlt, hargs⟩ := h.header
    refine ⟨_, callId, Nat.add_lt_add_right hlt _, ?_⟩
    simp only [block, List.length_map]
    exact args_callMarker h.opens hargs
  repeats := by simp only [block, instr, h.opens, h.closes, h.repeats]
  args := by
    intro ins' hins
    obtain ⟨ins, hmem, rfl⟩ := List.mem_map.mp hins
    obtain ⟨a, ha, hop, hargs⟩ := h.args ins hmem
    exact ⟨r.operand a, valid_operand ha hn, by rw [op_instr, source_operand, hop],
      args_callArg hop hargs⟩
  results := by
    intro ins' hins
    obtain ⟨ins, hmem, rfl⟩ := List.mem_map.mp hins
    refine (h.results ins hmem).imp_right ?_
    rintro ⟨i, hi, hop, hargs⟩
    exact ⟨i + r.params, Nat.add_lt_add_right hi _, hop, args_callResult hop hargs⟩
  placed := by
    rw [instrs_block]
    exact placed_map h.placed hn

end Blocks

theorem valid_item {item : Item} (h : item.Valid n p m k) (hn : r.renamed < n)
    (hargs : ∀ ins ∈ item.instrs, ins.args.length < Index.argBound) :
    (r.item item).Valid (r.shift n) (p + r.params) (m + r.slots) (k + r.handles) := by
  cases item with
  | plain ins =>
    exact ⟨valid_along h.1 hn (hargs ins List.mem_cons_self), placed_map (l := [ins]) h.2 hn⟩
  | call b => exact valid_block h hn

theorem valid_items {items : List Item} (h : ValidItems p m k n items) (hn : r.renamed < n)
    (hargs : ∀ ins ∈ instrsOf items, ins.args.length < Index.argBound) :
    ValidItems (p + r.params) (m + r.slots) (k + r.handles) (r.shift n) (items.map r.item) := by
  induction items generalizing n with
  | nil => trivial
  | cons item rest ih =>
    obtain ⟨hitem, hrest⟩ := h
    rw [instrsOf_cons] at hargs
    have hnext : r.shift n + rowCount (r.item item).instrs =
        r.shift (n + rowCount item.instrs) := by
      rw [instrs_item, rowCount_map]
      unfold shift
      omega
    refine ⟨valid_item hitem hn fun ins hins => hargs ins (by simp [hins]), ?_⟩
    rw [hnext]
    exact ih hrest (Nat.lt_add_right _ hn) fun ins hins => hargs ins (by simp [hins])

section Refl

variable {rows : Nat}

theorem row_refl (v : Nat) : (refl rows).row v = v := by
  unfold row shift refl
  split
  · rfl
  · show 0 + (v - 0) = v
    omega

theorem arg_refl (role : Role) (x : Nat) : (refl rows).arg role x = x := by
  cases role with
  | row => exact row_refl x
  | _ => rfl

theorem instr_refl (ins : Instr) : (refl rows).instr ins = ins := by
  have halong (roles : List Role) (args : List Nat) : (refl rows).along roles args = args := by
    induction args generalizing roles with
    | nil => cases roles <;> rfl
    | cons x args ih =>
      cases roles with
      | nil => rfl
      | cons role roles => rw [along, arg_refl, ih]
  have hrow : (refl rows).shift ins.row = ins.row := Nat.zero_add _
  rw [instr, halong, hrow]

theorem item_refl (item : Item) : (refl rows).item item = item := by
  have hinstr : (refl rows).instr = id := funext instr_refl
  cases item with
  | plain ins => rw [Relocation.item, instr_refl]
  | call b => simp only [Relocation.item, block, hinstr, id, List.map_id]

theorem map_item_refl (items : List Item) : items.map (refl rows).item = items := by
  rw [show (refl rows).item = id from funext item_refl, List.map_id]

end Refl

end Relocation

end JetTape
