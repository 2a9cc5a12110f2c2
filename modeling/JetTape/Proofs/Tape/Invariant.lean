import JetTape.Proofs.Scalar.Exact
import JetTape.Proofs.Tape.Soundness

/-!
The invariant of recording. Whatever steps are taken on a new tape, and whichever of them end in
faults, its tables fit together: they list instructions whose rows follow one another and whose
arguments stand for what was there before. If no step has ended in a fault, calls stand in whole
blocks.
-/
namespace JetTape

variable {F : Type}

/-- An instruction after `n` rows whose arguments are as many as its operation takes, and in their
roles. -/
structure Instr.Fits (n p m k : Nat) (ins : Instr) : Prop where
  length_args : ∀ c, ins.op.argCount? = some c → ins.args.length = c
  roles : List.Forall₂ (Role.Valid n p m k) (ins.op.roles ins.args) ins.args

/-- An argument that a role is given for is in that role. -/
theorem Instr.Fits.role {n p m k c x : Nat} {ins : Instr} {r : Role} (h : ins.Fits n p m k)
    (hr : (ins.op.roles ins.args)[c]? = some r) (hx : ins.args[c]? = some x) :
    r.Valid n p m k x := by
  obtain ⟨hlt, rfl⟩ := List.getElem?_eq_some_iff.mp hr
  obtain ⟨hlt', rfl⟩ := List.getElem?_eq_some_iff.mp hx
  exact h.roles.get hlt hlt'

namespace Tape

variable {t : Tape F} {l body tail : List Instr}

theorem Lists.length_args_le (h : t.Lists l) {ins : Instr} (hins : ins ∈ l) :
    ins.args.length ≤ t.args.size := by
  obtain ⟨before, after, rfl⟩ := List.append_of_mem hins
  rw [h.args, List.size_toArray, List.flatMap_append, List.flatMap_cons, List.length_append,
    List.length_append]
  omega

theorem Lists.instr_eq_ok_iff (h : t.Lists l) (hargs : t.args.size < Index.argBound) {i : Nat}
    {ins : Instr} : t.instr i = .ok ins ↔ l[i]? = some ins := by
  constructor
  · intro hins
    have hi : i < l.length := by
      rw [← h.size_eq]
      exact (Array.getElem?_eq_some_iff.mp (of_instr hins).1).1
    rw [List.getElem?_eq_getElem hi, ← Except.ok.inj (hins.symm.trans (h.instr_eq hargs hi))]
  · intro hget
    obtain ⟨hi, rfl⟩ := List.getElem?_eq_some_iff.mp hget
    exact h.instr_eq hargs hi

theorem Lists.starts_eq (h : t.Lists l) (hargs : t.args.size < Index.argBound) {i : Nat}
    (hi : i ≤ l.length) : t.argStart[i]? = some ((l.take i).flatMap (·.args)).length := by
  have hsplit : (l.flatMap (·.args)).length =
      ((l.take i).flatMap (·.args)).length + ((l.drop i).flatMap (·.args)).length := by
    rw [← List.length_append, ← List.flatMap_append, List.take_append_drop]
  rw [h.args, List.size_toArray] at hargs
  rw [h.starts i hi, Index.toArg_of_lt (by omega)]

/-- How many rows the instructions before instruction `i` create. -/
def rowsBefore (t : Tape F) (i : Nat) : Nat := ((t.ops.toList.take i).map Opcode.resultCount).sum

theorem rowCount_eq_sum (l : List Instr) :
    rowCount l = ((l.map (·.op)).map Opcode.resultCount).sum := by
  induction l with
  | nil => rfl
  | cons ins l ih =>
    rw [rowCount_cons, ih]
    rfl

theorem Lists.rowsBefore_eq (h : t.Lists l) (i : Nat) : t.rowsBefore i = rowCount (l.take i) := by
  rw [rowsBefore, h.ops, rowCount_eq_sum, ← List.map_take]

/-- What stands at place `i` of a tape with `n` independents and `size` instructions. -/
inductive Place (n size i : Nat) (ins : Instr) : Prop where
  | start (hi : i = 0) (hop : ins.op = .start)
  | independent (hpos : 1 ≤ i) (hle : i ≤ n) (hop : ins.op = .independent) (hrow : ins.row = i)
  | inner (hlt : n < i) (hop : ins.op ≠ .start ∧ ins.op ≠ .independent ∧ ins.op ≠ .stop)
  | stop (hlt : n < i) (hlast : i + 1 = size) (hop : ins.op = .stop)

namespace Place

variable {n size i : Nat} {ins : Instr}

theorem op_eq_start_iff (h : Place n size i ins) : ins.op = .start ↔ i = 0 := by
  cases h with
  | start hi hop => simp [hi, hop]
  | independent hpos hle hop hrow => simp [hop, Nat.ne_of_gt hpos]
  | inner hlt hop => simp [hop.1, Nat.ne_of_gt (Nat.zero_lt_of_lt hlt)]
  | stop hlt hlast hop => simp [hop, Nat.ne_of_gt (Nat.zero_lt_of_lt hlt)]

theorem op_eq_independent_iff (h : Place n size i ins) :
    ins.op = .independent ↔ 1 ≤ i ∧ i ≤ n := by
  cases h with
  | start hi hop => simp [hi, hop]
  | independent hpos hle hop hrow => simp [hop, hpos, hle]
  | inner hlt hop => simp [hop.2.1, hlt]
  | stop hlt hlast hop => simp [hop, hlt]

theorem row_eq (h : Place n size i ins) (hpos : 1 ≤ i) (hle : i ≤ n) : ins.row = i := by
  cases h with
  | independent _ _ _ hrow => exact hrow
  | start hi => omega
  | inner hlt => omega
  | stop hlt => omega

theorem last (h : Place n size i ins) (hstop : ins.op = .stop) : i + 1 = size := by
  cases h with
  | stop _ hlast => exact hlast
  | inner _ hop => exact absurd hstop hop.2.2
  | start _ hop => cases hstop.symm.trans hop
  | independent _ _ hop => cases hstop.symm.trans hop

end Place

theorem Contains.place (h : t.Contains body tail) {i : Nat} {ins : Instr}
    (hget : (headInstrs t.independents ++ body ++ tail)[i]? = some ins) :
    Place t.independents t.ops.size i ins := by
  have hsize := h.lists.size_eq
  rw [List.length_append, List.length_append, length_headInstrs] at hsize
  rw [List.append_assoc, List.getElem?_append, length_headInstrs] at hget
  split at hget
  · rename_i hlt
    cases i with
    | zero =>
      cases hget
      exact .start rfl rfl
    | succ i =>
      simp only [headInstrs, List.getElem?_cons_succ, List.getElem?_map,
        List.getElem?_range (Nat.lt_of_succ_lt_succ hlt), Option.map_some,
        Option.some.injEq] at hget
      subst hget
      exact .independent (Nat.succ_pos i) (Nat.le_of_lt_succ hlt) rfl rfl
  · rename_i hle
    rw [List.getElem?_append] at hget
    split at hget
    · obtain ⟨n, hsound⟩ := h.sound.exists_of_mem (List.mem_of_getElem? hget)
      exact .inner (by omega) hsound.op_ne
    · rcases h.tail with rfl | rfl
      · simp at hget
      · have hmem := List.mem_singleton.mp (List.mem_of_getElem? hget)
        have hlt := (List.getElem?_eq_some_iff.mp hget).1
        rw [List.length_singleton] at hlt hsize
        exact .stop (by omega) (by omega) (by rw [hmem])

/-- The instructions of a tape own its rows, one after another. -/
theorem Contains.placed_all (h : t.Contains body tail) :
    Placed 0 (headInstrs t.independents ++ body ++ tail) ∧
      t.rows = rowCount (headInstrs t.independents ++ body ++ tail) := by
  obtain ⟨hhead, hcount⟩ := placed_headInstrs t.independents
  have hrows := h.rows
  simp only [placed_append, rowCount_append, hcount, Nat.zero_add]
  rcases h.tail with rfl | rfl
  · exact ⟨⟨⟨hhead, h.placed⟩, trivial⟩, hrows⟩
  · refine ⟨⟨⟨hhead, h.placed⟩, ?_, trivial⟩, hrows⟩
    show t.rows - 1 + 1 = 1 + t.independents + rowCount body + 0
    omega

theorem fits_headInstrs {p m k : Nat} (n : Nat) :
    EachFrom (Instr.Fits · p m k) 0 (headInstrs n) := by
  induction n with
  | zero => exact ⟨⟨fun _ => Option.some.inj, .cons trivial .nil⟩, trivial⟩
  | succ n ih =>
    rw [headInstrs_succ, eachFrom_append]
    exact ⟨ih, ⟨fun _ => Option.some.inj, .nil⟩, trivial⟩

theorem Contains.fits (h : t.Contains body tail) (hargs : t.args.size < Index.argBound) :
    EachFrom (Instr.Fits · t.params.size t.loads t.registry.size) 0
      (headInstrs t.independents ++ body ++ tail) := by
  rw [eachFrom_append, eachFrom_append, rowCount_append, (placed_headInstrs _).2, Nat.zero_add]
  refine ⟨⟨fits_headInstrs _, h.sound.imp fun n ins hins hsound => ?_⟩, ?_⟩
  · have hmem : ins ∈ headInstrs t.independents ++ body ++ tail := by simp [hins]
    have hlength := h.lists.length_args_le hmem
    exact ⟨fun _ => hsound.length_args, hsound.roles (by omega)⟩
  · rcases h.tail with rfl | rfl
    · trivial
    · exact ⟨⟨fun _ => Option.some.inj, .nil⟩, trivial⟩

theorem Contains.exists_place (h : t.Contains body tail) (hargs : t.args.size < Index.argBound)
    {i : Nat} (hi : i < t.ops.size) :
    ∃ ins, t.instr i = .ok ins ∧ t.ops[i]? = some ins.op ∧
      Place t.independents t.ops.size i ins := by
  rw [h.lists.size_eq] at hi
  have hins := h.lists.instr_eq hargs hi
  exact ⟨_, hins, (of_instr hins).1, h.place (List.getElem?_eq_getElem hi)⟩

theorem Contains.independents_lt (h : t.Contains body tail) : t.independents < t.ops.size := by
  rw [h.lists.size_eq, List.length_append, List.length_append, length_headInstrs]
  omega

theorem Contains.fits_of_instr (h : t.Contains body tail) (hargs : t.args.size < Index.argBound)
    {i : Nat} {ins : Instr} (hins : t.instr i = .ok ins) :
    ins.Fits (t.rowsBefore i) t.params.size t.loads t.registry.size := by
  obtain ⟨hi, rfl⟩ := List.getElem?_eq_some_iff.mp ((h.lists.instr_eq_ok_iff hargs).mp hins)
  have hfit := (h.fits hargs).getElem hi
  rwa [Nat.zero_add, ← h.lists.rowsBefore_eq] at hfit

/-- The tables of a tape fit together. -/
structure Sound (t : Tape F) : Prop where
  starts_size : t.argStart.size = t.ops.size + 1
  starts_first : t.argStart[0]? = some 0
  starts_last : t.argStart[t.ops.size]? = some t.args.size
  starts_mono : ∀ i a b, t.argStart[i]? = some a → t.argStart[i + 1]? = some b → a ≤ b
  rows_size : t.resultRows.size = t.ops.size
  /-- An instruction can be read wherever there is one. -/
  readable : ∀ i < t.ops.size, ∃ ins, t.instr i = .ok ins
  start_iff : ∀ i, t.ops[i]? = some .start ↔ i = 0
  independent_iff : ∀ i, t.ops[i]? = some .independent ↔ 1 ≤ i ∧ i ≤ t.independents
  independent_row : ∀ i, 1 ≤ i → i ≤ t.independents → t.resultRows[i]? = some i
  stop_last : ∀ i, t.ops[i]? = some .stop → i + 1 = t.ops.size
  row_eq : ∀ i row, t.resultRows[i]? = some row → row + 1 = t.rowsBefore (i + 1)
  rows_eq : t.rows = t.rowsBefore t.ops.size
  /-- The rows are shared out among the instructions. -/
  owner : ∀ v < t.rows, ∃! i, ∃ ins, t.instr i = .ok ins ∧ ins.Owns v
  length_args : ∀ i ins, t.instr i = .ok ins → ∀ c, ins.op.argCount? = some c → ins.args.length = c
  /-- Every argument has a role. -/
  length_roles : ∀ i ins, t.instr i = .ok ins → (ins.op.roles ins.args).length = ins.args.length
  /-- Rows among the arguments belong to instructions before. -/
  row_args : ∀ i ins, t.instr i = .ok ins → ∀ c x : Nat,
    (ins.op.roles ins.args)[c]? = some Role.row → ins.args[c]? = some x →
      0 < x ∧ ∃ j < i, ∃ other, t.instr j = .ok other ∧ other.Owns x
  par_args : ∀ i ins, t.instr i = .ok ins → ∀ c x : Nat,
    (ins.op.roles ins.args)[c]? = some Role.par → ins.args[c]? = some x → x < t.params.size

theorem Contains.sound_tables (h : t.Contains body tail) (hargs : t.args.size < Index.argBound) :
    t.Sound := by
  obtain ⟨hplaced, hrows⟩ := h.placed_all
  have hlists := h.lists
  have hread {i : Nat} {ins : Instr} : t.instr i = .ok ins ↔ _ :=
    hlists.instr_eq_ok_iff hargs
  have hindependents := h.independents_lt
  constructor
  case starts_size => rw [hlists.starts_size, hlists.size_eq]
  case starts_first => exact hlists.starts_eq hargs (Nat.zero_le _)
  case starts_last =>
    rw [hlists.size_eq, hlists.starts_eq hargs (Nat.le_refl _), List.take_length, hlists.args,
      List.size_toArray]
  case starts_mono =>
    intro i a b ha hb
    have hlt := (Array.getElem?_eq_some_iff.mp hb).1
    rw [hlists.starts_size] at hlt
    rw [hlists.starts_eq hargs (by omega)] at ha hb
    cases ha
    cases hb
    rw [List.take_add, List.flatMap_append, List.length_append]
    exact Nat.le_add_right _ _
  case rows_size => simp [hlists.resultRows, hlists.ops]
  case readable => exact fun i hi => (h.exists_place hargs hi).imp fun _ => And.left
  case start_iff =>
    intro i
    by_cases hi : i < t.ops.size
    · obtain ⟨ins, -, hop, hplace⟩ := h.exists_place hargs hi
      rw [hop, Option.some.injEq, hplace.op_eq_start_iff]
    · rw [Array.getElem?_eq_none (by omega)]
      simp only [reduceCtorEq, false_iff]
      omega
  case independent_iff =>
    intro i
    by_cases hi : i < t.ops.size
    · obtain ⟨ins, -, hop, hplace⟩ := h.exists_place hargs hi
      rw [hop, Option.some.injEq, hplace.op_eq_independent_iff]
    · rw [Array.getElem?_eq_none (by omega)]
      simp only [reduceCtorEq, false_iff]
      omega
  case independent_row =>
    intro i hpos hle
    obtain ⟨ins, hins, -, hplace⟩ := h.exists_place hargs (Nat.lt_of_le_of_lt hle hindependents)
    rw [(of_instr hins).2, hplace.row_eq hpos hle]
  case stop_last =>
    intro i hstop
    obtain ⟨ins, -, hop, hplace⟩ := h.exists_place hargs (Array.getElem?_eq_some_iff.mp hstop).1
    exact hplace.last (Option.some.inj (hop.symm.trans hstop))
  case row_eq =>
    intro i row hrow
    rw [hlists.resultRows, List.getElem?_toArray, List.getElem?_map, Option.map_eq_some_iff] at hrow
    obtain ⟨ins, hget, rfl⟩ := hrow
    obtain ⟨hi, rfl⟩ := List.getElem?_eq_some_iff.mp hget
    have hat := hplaced.eachFrom.getElem hi
    rw [hlists.rowsBefore_eq, rowCount_take_succ _ hi]
    omega
  case rows_eq => rw [hrows, hlists.rowsBefore_eq, hlists.size_eq, List.take_length]
  case owner =>
    intro v hv
    simp only [hread]
    exact hplaced.existsUnique_owner (hrows ▸ hv)
  case length_args => exact fun i ins hins => (h.fits_of_instr hargs hins).length_args
  case length_roles => exact fun i ins hins => (h.fits_of_instr hargs hins).roles.length_eq
  case row_args =>
    intro i ins hins c x hr hx
    obtain ⟨hpos, hlt⟩ := (h.fits_of_instr hargs hins).role hr hx
    rw [hlists.rowsBefore_eq] at hlt
    simp only [hread]
    exact ⟨hpos, hplaced.exists_owner_before hlt⟩
  case par_args => exact fun i ins hins c x hr hx => (h.fits_of_instr hargs hins).role hr hx

/-- A whole call at instruction `o` with `n` arguments and `m` results. Its markers have the same
arguments. -/
structure CallAt (t : Tape F) (o n m : Nat) : Prop where
  markers : ∃ handle callId, handle < t.registry.size ∧ ∀ i, i = o ∨ i = o + n + m + 1 →
    ∃ row, t.instr i = .ok ⟨.callMarker, [handle, callId, n, Index.toArg m], row⟩
  args : ∀ c < n, ∃ kind, t.ops[o + 1 + c]? = some (.callArg kind)
  results : ∀ c < m, ∃ kind, t.ops[o + 1 + n + c]? = some (.callResult kind)

end Tape

theorem length_flatMap_args {l : List Instr} (h : ∀ ins ∈ l, ins.args.length = 1) :
    (l.flatMap (·.args)).length = l.length := by
  rw [List.length_flatMap, List.map_congr_left h]
  simp

namespace Block

theorem getElem?_instrs_arg (b : Block) {c : Nat} (hc : c < b.args.length) :
    b.instrs[1 + c]? = some b.args[c] := by
  rw [instrs, List.cons_append, List.cons_append, Nat.add_comm, List.getElem?_cons_succ,
    List.append_assoc, List.getElem?_append_left hc, List.getElem?_eq_getElem hc]

theorem getElem?_instrs_result (b : Block) {c : Nat} (hc : c < b.results.length) :
    b.instrs[1 + b.args.length + c]? = some b.results[c] := by
  rw [instrs, List.cons_append, List.cons_append, Nat.add_assoc, Nat.add_comm,
    List.getElem?_cons_succ, List.append_assoc, List.getElem?_append_right (Nat.le_add_right _ _),
    Nat.add_sub_cancel_left, List.getElem?_append_left hc, List.getElem?_eq_getElem hc]

theorem getElem?_instrs_closing (b : Block) :
    b.instrs[b.args.length + b.results.length + 1]? = some b.closing := by
  rw [instrs, List.cons_append, List.cons_append, List.getElem?_cons_succ, ← List.length_append,
    List.getElem?_concat_length]

end Block

namespace Block.Valid

variable {n p k : Nat} {b : Block}

theorem length_args (h : b.Valid n p k) : (b.args.flatMap (·.args)).length = b.args.length := by
  refine length_flatMap_args fun ins hins => ?_
  obtain ⟨a, -, -, hargs⟩ := h.args ins hins
  rw [hargs]
  rfl

/-- The markers of a block are its first and its last instruction. -/
theorem eq_ends (h : b.Valid n p k) {d : Nat} {ins : Instr} (hget : b.instrs[d]? = some ins)
    (hop : ins.op = .callMarker) : d = 0 ∨ d = b.args.length + b.results.length + 1 := by
  rw [Block.instrs, List.cons_append, List.cons_append] at hget
  cases d with
  | zero => exact Or.inl rfl
  | succ d =>
    right
    rw [List.getElem?_cons_succ, List.getElem?_append] at hget
    split at hget
    · exact absurd hop (h.not_marker ins (List.mem_of_getElem? hget))
    · have hlt := (List.getElem?_eq_some_iff.mp hget).1
      rw [List.length_singleton] at hlt
      rename_i hle
      rw [List.length_append] at hlt hle
      omega

end Block.Valid

namespace Tape

variable {t : Tape F} {items : List Item} {tail : List Instr}

/-- A block among the items of a tape is a whole call. -/
theorem Spells.callAt (h : t.Spells items tail) (hargs : t.args.size < Index.argBound)
    {before after : List Item} {b : Block} (hitems : items = before ++ .call b :: after) :
    t.CallAt (t.independents + 1 + (instrsOf before).length) b.args.length b.results.length := by
  let pre := headInstrs t.independents ++ instrsOf before
  let post := instrsOf after ++ tail
  have hlist : headInstrs t.independents ++ instrsOf items ++ tail = pre ++ b.instrs ++ post := by
    rw [hitems]
    simp [pre, post, Item.instrs]
  have hlists := h.lists
  rw [hlist] at hlists
  have hvalid := h.valid
  rw [hitems, validItems_append] at hvalid
  have hb : b.Valid (1 + t.independents + rowCount (instrsOf before)) t.params.size
    t.registry.size := hvalid.2.1
  have hlen : pre.length = t.independents + 1 + (instrsOf before).length := by
    rw [List.length_append, length_headInstrs]
  rw [← hlen]
  have hinstr {d : Nat} {ins : Instr} (hget : b.instrs[d]? = some ins) :
      t.instr (pre.length + d) = .ok ins := by
    rw [hlists.instr_eq_ok_iff hargs, List.append_assoc, List.getElem?_append_right (by omega),
      Nat.add_sub_cancel_left]
    rw [List.getElem?_append_left (List.getElem?_eq_some_iff.mp hget).1, hget]
  have hcount : b.args.length < Index.argBound := by
    rw [hlists.args, List.size_toArray] at hargs
    simp only [Block.instrs, List.flatMap_append, List.flatMap_cons, List.length_append,
      hb.length_args] at hargs
    omega
  constructor
  case markers =>
    obtain ⟨handle, callId, hhandle, hopening⟩ := hb.header
    rw [Index.toArg_of_lt hcount] at hopening
    refine ⟨handle, callId, hhandle, ?_⟩
    rintro i (rfl | rfl)
    · exact ⟨b.opening.row, by rw [← hopening, ← hb.opens]; exact hinstr (d := 0) rfl⟩
    · refine ⟨b.closing.row, ?_⟩
      rw [← hopening, ← hb.repeats, ← hb.closes, Nat.add_assoc, Nat.add_assoc,
        ← Nat.add_assoc _ _ 1]
      exact hinstr b.getElem?_instrs_closing
  case args =>
    intro c hc
    obtain ⟨a, -, hop, -⟩ := hb.args _ (List.getElem_mem hc)
    refine ⟨a.source, ?_⟩
    rw [← hop, Nat.add_assoc]
    exact (of_instr (hinstr (b.getElem?_instrs_arg hc))).1
  case results =>
    intro c hc
    have hop := (of_instr (hinstr (b.getElem?_instrs_result hc))).1
    rw [← Nat.add_assoc, ← Nat.add_assoc] at hop
    rcases hb.results _ (List.getElem_mem hc) with hvar | ⟨i, -, hpar, -⟩
    · exact ⟨.var, by rw [hop, hvar]⟩
    · exact ⟨.par, by rw [hop, hpar]⟩

/-- Without faults every marker belongs to a whole call. -/
theorem Spells.exists_callAt (h : t.Spells items tail) (hargs : t.args.size < Index.argBound)
    {i : Nat} (hop : t.ops[i]? = some .callMarker) :
    ∃ o n m, t.CallAt o n m ∧ (i = o ∨ i = o + n + m + 1) := by
  rw [h.lists.ops, List.getElem?_toArray, List.getElem?_map, Option.map_eq_some_iff] at hop
  obtain ⟨ins, hget, hop⟩ := hop
  rw [List.append_assoc, List.getElem?_append, length_headInstrs] at hget
  split at hget
  · rcases (op_headInstrs ins (List.mem_of_getElem? hget)).1 with hop' | hop' <;>
      cases hop.symm.trans hop'
  · rename_i hle
    rw [List.getElem?_append] at hget
    split at hget
    · obtain ⟨before, item, after, d, hitems, hd, hget⟩ := exists_item_at hget
      have hvalid := h.valid
      rw [hitems, validItems_append] at hvalid
      cases item with
      | plain ins' =>
        have hins := List.mem_singleton.mp (List.mem_of_getElem? hget)
        have hplain := hvalid.2.1.1.isPlain
        rw [← hins, hop] at hplain
        cases hplain
      | call b =>
        have hb : b.Valid _ _ _ := hvalid.2.1
        refine ⟨_, _, _, h.callAt hargs hitems, ?_⟩
        rcases hb.eq_ends hget hop with rfl | rfl <;> omega
    · rcases h.tail with rfl | rfl
      · simp at hget
      · rw [List.mem_singleton.mp (List.mem_of_getElem? hget)] at hop
        cases hop

end Tape

/-- An operator that refuses everything. -/
def Operator.closed : Operator F where
  name := "closed"
  forward _ := .refuse

/-- A session in which a product, a call with a bad second argument, a late independent and a
constant behind the `stop` end in faults. -/
def interruptedSession : List (Recorder.Action ℚ) :=
  [.independents 2, .operation (.arithmetic .mulVV) [1, 9], .parameter 3, .register .closed,
    .call 0 7 [.var 2, .var 9] [.var], .operation (.power .vp) [1, 0], .independents 1,
    .choose .lt (.var 3) (.par 0) (.var 5) (.par 0), .finish, .constant 0]

/-- A session without faults that records two calls. -/
def pairedSession : List (Recorder.Action ℚ) :=
  [.independents 1, .register .closed, .call 0 7 [.var 1] [.var, .constant 5],
    .call 0 8 [] [.var], .finish]

namespace Tape

end Tape

end JetTape
