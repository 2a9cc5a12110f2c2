import Mathlib.Logic.ExistsUnique
import JetTape.Tape.Recorder

/-!
The instruction tables of a tape as a list of instructions. Appending an instruction appends to
the list, and as long as the arguments can be counted in 32 bits the tables give back what they
list.
-/
namespace JetTape

variable {F : Type}

/-- The instruction owns the row as its primary or an auxiliary result. -/
def Instr.Owns (ins : Instr) (v : Nat) : Prop := ins.row < v + ins.op.resultCount ∧ v ≤ ins.row

instance (ins : Instr) (v : Nat) : Decidable (ins.Owns v) := instDecidableAnd

/-- How many rows the instructions create. -/
def rowCount : List Instr → Nat
  | [] => 0
  | ins :: l => ins.op.resultCount + rowCount l

@[simp] theorem rowCount_nil : rowCount [] = 0 := rfl

@[simp] theorem rowCount_cons (ins : Instr) (l : List Instr) :
    rowCount (ins :: l) = ins.op.resultCount + rowCount l := rfl

@[simp] theorem rowCount_append (l l' : List Instr) :
    rowCount (l ++ l') = rowCount l + rowCount l' := by
  induction l with
  | nil => simp
  | cons ins l ih => rw [List.cons_append, rowCount_cons, rowCount_cons, ih, Nat.add_assoc]

/-- The instructions own consecutive rows from row `n` on, auxiliary rows first. -/
def Placed : Nat → List Instr → Prop
  | _, [] => True
  | n, ins :: rest => ins.row + 1 = n + ins.op.resultCount ∧ Placed (n + ins.op.resultCount) rest

theorem placed_append {n : Nat} {l l' : List Instr} :
    Placed n (l ++ l') ↔ Placed n l ∧ Placed (n + rowCount l) l' := by
  induction l generalizing n with
  | nil => simp [Placed]
  | cons ins l ih =>
    rw [List.cons_append, Placed, Placed, ih, rowCount_cons, ← Nat.add_assoc, and_assoc]

theorem Placed.row_lt {n : Nat} {l : List Instr} (h : Placed n l) (hn : 0 < n) :
    ∀ ins ∈ l, ins.row < n + rowCount l := by
  induction l generalizing n with
  | nil => simp
  | cons ins l ih =>
    intro i hi
    obtain ⟨hrow, hrest⟩ := h
    rw [rowCount_cons]
    rcases List.mem_cons.mp hi with rfl | hi
    · omega
    · have := ih hrest (by omega) i hi
      omega

/-- Every row that placed instructions create belongs to one of them. -/
theorem Placed.exists_owner {n v : Nat} {l : List Instr} (h : Placed n l) (hn : n ≤ v)
    (hv : v < n + rowCount l) :
    ∃ ins ∈ l, ins.row < v + ins.op.resultCount ∧ v ≤ ins.row := by
  induction l generalizing n with
  | nil =>
    rw [rowCount_nil] at hv
    omega
  | cons ins l ih =>
    obtain ⟨hrow, hrest⟩ := h
    rw [rowCount_cons] at hv
    by_cases hown : v < n + ins.op.resultCount
    · exact ⟨ins, List.mem_cons_self, by omega, by omega⟩
    · obtain ⟨i, hi, hlt, hle⟩ := ih hrest (by omega) (by omega)
      exact ⟨i, List.mem_cons_of_mem ins hi, hlt, hle⟩

/-- Placed instructions create no rows but those from `n` on. -/
theorem Placed.owner_bounds {n v : Nat} {l : List Instr} (h : Placed n l) {ins : Instr}
    (hins : ins ∈ l) (hlt : ins.row < v + ins.op.resultCount) (hle : v ≤ ins.row) :
    n ≤ v ∧ v < n + rowCount l := by
  induction l generalizing n with
  | nil => cases hins
  | cons i l ih =>
    obtain ⟨hrow, hrest⟩ := h
    rw [rowCount_cons]
    rcases List.mem_cons.mp hins with rfl | hins
    · omega
    · have := ih hrest hins
      omega

/-- A row has one owner. -/
theorem Placed.eq_of_owns {n v : Nat} {l : List Instr} (h : Placed n l) {ins ins' : Instr}
    (hins : ins ∈ l) (hins' : ins' ∈ l) (hown : ins.Owns v) (hown' : ins'.Owns v) : ins = ins' := by
  induction l generalizing n with
  | nil => cases hins
  | cons i l ih =>
    obtain ⟨hrow, hrest⟩ := h
    rcases List.mem_cons.mp hins with rfl | hlater <;>
      rcases List.mem_cons.mp hins' with rfl | hlater'
    · rfl
    · have := hrest.owner_bounds hlater' hown'.1 hown'.2
      have := hown.2
      omega
    · have := hrest.owner_bounds hlater hown.1 hown.2
      have := hown'.2
      omega
    · exact ih hrest hlater hlater'

/-- Instructions without rows stand behind the rows before them. -/
theorem Placed.row_of_none {n : Nat} {l : List Instr} (h : Placed n l)
    (hnone : ∀ ins ∈ l, ins.op.resultCount = 0) : ∀ ins ∈ l, ins.row + 1 = n := by
  induction l with
  | nil => simp
  | cons i l ih =>
    obtain ⟨hrow, hrest⟩ := h
    obtain ⟨hcount, hnone⟩ := List.forall_mem_cons.mp hnone
    rw [hcount] at hrow hrest
    exact List.forall_mem_cons.mpr ⟨hrow, ih hrest hnone⟩

section EachFrom

variable {P Q : Nat → Instr → Prop} {n : Nat} {l l' : List Instr}

/-- `P` holds of each of the instructions and the number of rows before it, which is `n` for the
first of them. -/
def EachFrom (P : Nat → Instr → Prop) : Nat → List Instr → Prop
  | _, [] => True
  | n, ins :: rest => P n ins ∧ EachFrom P (n + ins.op.resultCount) rest

theorem eachFrom_append :
    EachFrom P n (l ++ l') ↔ EachFrom P n l ∧ EachFrom P (n + rowCount l) l' := by
  induction l generalizing n with
  | nil => simp [EachFrom]
  | cons ins l ih =>
    rw [List.cons_append, EachFrom, EachFrom, ih, rowCount_cons, ← Nat.add_assoc, and_assoc]

theorem EachFrom.imp (h : EachFrom P n l) (hPQ : ∀ n, ∀ ins ∈ l, P n ins → Q n ins) :
    EachFrom Q n l := by
  induction l generalizing n with
  | nil => trivial
  | cons ins l ih =>
    exact ⟨hPQ n ins List.mem_cons_self h.1,
      ih h.2 fun n ins hins => hPQ n ins (List.mem_cons_of_mem _ hins)⟩

theorem EachFrom.getElem (h : EachFrom P n l) {c : Nat} (hc : c < l.length) :
    P (n + rowCount (l.take c)) l[c] := by
  have hsplit := h
  rw [← List.take_append_drop c l, eachFrom_append, List.drop_eq_getElem_cons hc] at hsplit
  exact hsplit.2.1

theorem EachFrom.exists_of_mem (h : EachFrom P n l) {ins : Instr} (hins : ins ∈ l) :
    ∃ n, P n ins := by
  obtain ⟨c, hc, rfl⟩ := List.getElem_of_mem hins
  exact ⟨_, h.getElem hc⟩

theorem Placed.eachFrom (h : Placed n l) :
    EachFrom (fun n ins => ins.row + 1 = n + ins.op.resultCount) n l := by
  induction l generalizing n with
  | nil => trivial
  | cons ins l ih => exact ⟨h.1, ih h.2⟩

end EachFrom

theorem rowCount_take_mono (l : List Instr) {i j : Nat} (h : i ≤ j) :
    rowCount (l.take i) ≤ rowCount (l.take j) := by
  obtain ⟨d, rfl⟩ := Nat.exists_eq_add_of_le h
  rw [List.take_add, rowCount_append]
  exact Nat.le_add_right _ _

theorem rowCount_take_succ (l : List Instr) {i : Nat} (h : i < l.length) :
    rowCount (l.take (i + 1)) = rowCount (l.take i) + l[i].op.resultCount := by
  rw [List.take_succ_eq_append_getElem h, rowCount_append, rowCount_cons, rowCount_nil,
    Nat.add_zero]

/-- A placed instruction owns the rows between those of the instructions before it and those of the
instructions up to it. -/
theorem Placed.owns_iff {l : List Instr} (h : Placed 0 l) {i : Nat} (hi : i < l.length) (v : Nat) :
    l[i].Owns v ↔ rowCount (l.take i) ≤ v ∧ v < rowCount (l.take (i + 1)) := by
  have hrow := h.eachFrom.getElem hi
  rw [Nat.zero_add] at hrow
  rw [rowCount_take_succ l hi, Instr.Owns]
  omega

theorem Placed.existsUnique_owner {l : List Instr} (h : Placed 0 l) {v : Nat}
    (hv : v < rowCount l) : ∃! i : Nat, ∃ ins, l[i]? = some ins ∧ ins.Owns v := by
  obtain ⟨ins, hins, howns⟩ := h.exists_owner (Nat.zero_le v) (by rwa [Nat.zero_add])
  obtain ⟨i, hi, rfl⟩ := List.getElem_of_mem hins
  refine ⟨i, ⟨l[i], List.getElem?_eq_getElem hi, howns⟩, ?_⟩
  rintro j ⟨ins, hget, hother⟩
  obtain ⟨hj, rfl⟩ := List.getElem?_eq_some_iff.mp hget
  have hfirst := (h.owns_iff hi v).mp howns
  have hsecond := (h.owns_iff hj v).mp hother
  rcases Nat.lt_trichotomy j i with hlt | heq | hlt
  · have := rowCount_take_mono l (show j + 1 ≤ i from hlt)
    omega
  · exact heq
  · have := rowCount_take_mono l (show i + 1 ≤ j from hlt)
    omega

/-- The rows that instructions on a tape refer to belong to instructions before them. -/
theorem Placed.exists_owner_before {l : List Instr} (h : Placed 0 l) {i v : Nat}
    (hv : v < rowCount (l.take i)) : ∃ j < i, ∃ ins, l[j]? = some ins ∧ ins.Owns v := by
  have hbefore : Placed 0 (l.take i) := by
    rw [← List.take_append_drop i l, placed_append] at h
    exact h.1
  obtain ⟨ins, hins, howns⟩ := hbefore.exists_owner (Nat.zero_le v) (by rwa [Nat.zero_add])
  obtain ⟨j, hj, rfl⟩ := List.getElem_of_mem hins
  have hlt : j < i := by
    rw [List.length_take] at hj
    omega
  refine ⟨j, hlt, _, ?_, howns⟩
  rw [← List.getElem?_eq_getElem hj, List.getElem?_take_of_lt hlt]

namespace Tape

/-- The tables hold the listed instructions. -/
structure Lists (t : Tape F) (l : List Instr) : Prop where
  ops : t.ops = (l.map (·.op)).toArray
  args : t.args = (l.flatMap (·.args)).toArray
  starts_size : t.argStart.size = l.length + 1
  starts : ∀ i, i ≤ l.length →
    t.argStart[i]? = some (Index.toArg ((l.take i).flatMap (·.args)).length)
  resultRows : t.resultRows = (l.map (·.row)).toArray

theorem Lists.size_eq {t : Tape F} {l : List Instr} (h : t.Lists l) : t.ops.size = l.length := by
  simp [h.ops]

/-- A list that ends with its only `stop`, or has none, makes a tape that is stopped, or is not. -/
theorem Lists.isStopped_iff {t : Tape F} {l tail : List Instr} (h : t.Lists (l ++ tail))
    (hl : ∀ ins ∈ l, ins.op ≠ .stop) (htail : tail = [] ∨ ∃ ins, tail = [ins] ∧ ins.op = .stop) :
    t.isStopped = true ↔ tail ≠ [] := by
  unfold isStopped
  rw [h.ops, decide_eq_true_eq, List.back?_toArray]
  rcases htail with rfl | ⟨ins, rfl, hop⟩
  · simp only [List.append_nil, ne_eq, not_true_eq_false, iff_false]
    intro hlast
    obtain ⟨ins, hins, hop⟩ := List.mem_map.mp (List.mem_of_getLast? hlast)
    exact hl ins hins hop
  · simp [hop]

theorem lists_empty : (empty : Tape F).Lists [⟨.start, [0], 0⟩] where
  ops := rfl
  args := rfl
  starts_size := rfl
  starts := by
    intro i hi
    have : i = 0 ∨ i = 1 := by simp at hi; omega
    rcases this with rfl | rfl <;> rfl
  resultRows := rfl

theorem Lists.append {t : Tape F} {l : List Instr} (h : t.Lists l) (op : Opcode) (args : List Nat)
    (rows : Nat) : (t.append op args rows).Lists (l ++ [⟨op, args, rows - 1⟩]) where
  ops := by simp [h.ops]
  args := by simp [h.args]
  starts_size := by simp [Tape.append, h.starts_size]
  starts := by
    intro i hi
    rw [List.length_append, List.length_singleton] at hi
    show (t.argStart.push _)[i]? = _
    by_cases hlt : i ≤ l.length
    · rw [Array.getElem?_push_lt (by rw [h.starts_size]; omega), ← Array.getElem?_eq_getElem,
        h.starts i hlt, List.take_append_of_le_length hlt]
    · have hi : i = l.length + 1 := by omega
      have hsize : i = t.argStart.size := by rw [hi, h.starts_size]
      rw [hsize, Array.getElem?_push_size, ← hsize, hi,
        List.take_of_length_le (by simp)]
      simp [h.args]
  resultRows := by simp [h.resultRows]

/-- The tables of operations and of rows tell the operation and the row of an instruction. -/
theorem of_instr {t : Tape F} {i : Nat} {ins : Instr} (h : t.instr i = .ok ins) :
    t.ops[i]? = some ins.op ∧ t.resultRows[i]? = some ins.row := by
  simp only [instr, bind_eq_ok_iff, Index.get_eq_ok_iff] at h
  obtain ⟨_, -, _, -, op, hop, _, -, row, hrow, h⟩ := h
  cases h
  exact ⟨hop, hrow⟩

/-- The entries of a table of lists, found by the lengths of the lists before them. -/
theorem slice_flatMap {l : List Instr} {i : Nat} (hi : i < l.length) :
    Index.slice (l.flatMap (·.args)).toArray ((l.take i).flatMap (·.args)).length
      ((l.take (i + 1)).flatMap (·.args)).length = .ok l[i].args := by
  have hsplit : l.flatMap (·.args) = (l.take i).flatMap (·.args) ++
      (l[i].args ++ (l.drop (i + 1)).flatMap (·.args)) := by
    rw [← List.flatMap_cons, ← List.drop_eq_getElem_cons hi, ← List.flatMap_append,
      List.take_append_drop]
  have htake : ((l.take (i + 1)).flatMap (·.args)).length =
      ((l.take i).flatMap (·.args)).length + l[i].args.length := by
    rw [List.take_succ_eq_append_getElem hi, List.flatMap_append, List.length_append,
      List.flatMap_singleton]
  generalize hfront : (l.take i).flatMap (·.args) = front at hsplit htake
  rw [htake, hsplit, Index.slice, if_neg (by simp), if_neg (by simp), if_neg (by omega)]
  simp

theorem words_take_le (l : List Instr) (k : Nat) :
    ((l.take k).flatMap (·.args)).length ≤ (l.flatMap (·.args)).length := by
  have hsplit : (l.flatMap (·.args)).length = ((l.take k).flatMap (·.args)).length +
      ((l.drop k).flatMap (·.args)).length := by
    rw [← List.length_append, ← List.flatMap_append, List.take_append_drop]
  omega

theorem Lists.instr_eq {t : Tape F} {l : List Instr} (h : t.Lists l)
    (hargs : t.args.size < Index.argBound) {i : Nat} (hi : i < l.length) :
    t.instr i = .ok l[i] := by
  have hsize : t.args.size = (l.flatMap (·.args)).length := by simp [h.args]
  have hbelow (k : Nat) : ((l.take k).flatMap (·.args)).length < Index.argBound :=
    Nat.lt_of_le_of_lt (words_take_le l k) (hsize ▸ hargs)
  have hstart (k : Nat) (hk : k ≤ l.length) :
      Index.get t.argStart k = .ok ((l.take k).flatMap (·.args)).length := by
    rw [Index.get_eq_ok_iff, h.starts k hk, Index.toArg_of_lt (hbelow k)]
  have hop : Index.get t.ops i = .ok l[i].op := by
    rw [Index.get_eq_ok_iff, h.ops]
    simp [hi]
  have hrow : Index.get t.resultRows i = .ok l[i].row := by
    rw [Index.get_eq_ok_iff, h.resultRows]
    simp [hi]
  simp only [instr, bind_eq_ok_iff]
  refine ⟨_, hstart i (by omega), _, hstart (i + 1) (by omega), _, hop, _, ?_, _, hrow, rfl⟩
  rw [h.args]
  exact slice_flatMap hi

/-- The instructions of a tape in their order. -/
def instrs (t : Tape F) : List Instr :=
  (List.range t.ops.size).filterMap fun i => (t.instr i).toOption

/-- The tables give back the whole list. -/
theorem Lists.instrs_eq {t : Tape F} {l : List Instr} (h : t.Lists l)
    (hargs : t.args.size < Index.argBound) : t.instrs = l := by
  have hfrom (a : Nat) (l' : List Instr)
      (hget : ∀ i (hi : i < l'.length), t.instr (a + i) = .ok l'[i]) :
      (List.range' a l'.length).filterMap (fun i => (t.instr i).toOption) = l' := by
    induction l' generalizing a with
    | nil => rfl
    | cons ins l' ih =>
      have hfirst : t.instr a = .ok ins := hget 0 (by simp)
      have hlater := ih (a + 1) fun i hi => by
        have := hget (i + 1) (by simpa using hi)
        rwa [Nat.add_right_comm, Nat.add_assoc]
      rw [List.length_cons, List.range'_succ, List.filterMap_cons, hfirst, hlater]
      rfl
  unfold instrs
  rw [h.size_eq, List.range_eq_range']
  exact hfrom 0 l fun i hi => by rw [Nat.zero_add, h.instr_eq hargs hi]

end Tape

end JetTape
