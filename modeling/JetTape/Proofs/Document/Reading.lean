import JetTape.Proofs.Document.Tape
import JetTape.Proofs.Tape.Tables
import Mathlib.Data.List.Chain

/-!
Reading tapes. The tapes that some document stands for are those without operators whose tables have
the right lengths, end at the last argument and hold short numbers. What the table of offsets holds
between its ends is not looked at: each instruction of a tape that has been read can be looked up
exactly if the offsets never fall.
-/
namespace JetTape

/-- A slice can be taken if its ends are in order and it does not go beyond the entries. -/
theorem Index.slice_eq_ok_iff {α : Type} {xs : Array α} {a b : Nat} {l : List α} :
    slice xs a b = .ok l ↔ (a ≤ b ∧ b ≤ xs.size) ∧ l = (xs.extract a b).toList := by
  unfold slice
  split
  · simp only [reduceCtorEq, false_iff]
    omega
  split
  · simp only [reduceCtorEq, false_iff]
    omega
  split
  · simp only [reduceCtorEq, false_iff]
    omega
  · rw [Except.ok.injEq, eq_comm, iff_and_self]
    omega

/-- The first of the three ways in which the ends of a slice can be wrong. -/
theorem Index.slice_eq_error_iff {α : Type} {xs : Array α} {a b : Nat} {f : Fault} :
    slice xs a b = .error f ↔
      (xs.size < a ∧ f = .sliceStart a xs.size) ∨
      (a ≤ xs.size ∧ xs.size < b ∧ f = .sliceStop b xs.size) ∨
      (a ≤ xs.size ∧ b < a ∧ f = .sliceReversed a b) := by
  unfold slice
  split
  · simp only [Except.error.injEq, eq_comm (a := f)]
    grind
  split
  · simp only [Except.error.injEq, eq_comm (a := f)]
    grind
  split
  · simp only [Except.error.injEq, eq_comm (a := f)]
    grind
  · simp only [reduceCtorEq, false_iff]
    omega

variable {F : Type}

namespace Document

variable {α : Type} {d : Document F} {value : Reader F α} {x : α}

theorem lt_of_nat {bound n : Nat} (h : nat bound d = .ok n) : n < bound := by
  unfold nat at h
  split at h
  · split at h
    · cases h
      omega
    · cases h
  · cases h

theorem bind_eq_error_iff {ε β : Type} {m : Except ε α} {k : α → Except ε β} {e : ε} :
    m >>= k = .error e ↔ m = .error e ∨ ∃ a, m = .ok a ∧ k a = .error e := by
  cases m <;> simp [bind, Except.bind]

@[simp] theorem check_eq_error_iff {p : Prop} [Decidable p] {e e' : DocumentError} :
    check p e = .error e' ↔ ¬ p ∧ e' = e := by
  unfold check
  split <;> simp_all [eq_comm]

/-- What holds of all items that are read holds of the items of an array that is read. -/
theorem forall_of_array {P : α → Prop} {xs : Array α} (hP : ∀ d x, value d = .ok x → P x)
    (h : array value d = .ok xs) : ∀ x ∈ xs, P x := by
  have hitems (items : List (Document F)) :
      ∀ l, items.mapM value = .ok l → ∀ x ∈ l, P x := by
    induction items with
    | nil =>
      intro l hl
      cases hl
      simp
    | cons d items ih =>
      intro l hl
      rw [List.mapM_cons] at hl
      obtain ⟨x, hx, hl⟩ := bind_eq_ok_iff.mp hl
      obtain ⟨rest, hrest, hl⟩ := bind_eq_ok_iff.mp hl
      cases hl
      exact List.forall_mem_cons.mpr ⟨hP d x hx, ih rest hrest⟩
  cases d with
  | list items =>
    obtain ⟨l, hl, hxs⟩ := bind_eq_ok_iff.mp h
    cases hxs
    exact fun x hx => hitems items l hl x (List.mem_toArray.mp hx)
  | _ => cases h

theorem of_field? {fields : List (String × Document F)} {name : String}
    (h : field? fields name value = .ok (some x)) : ∃ d, value d = .ok x := by
  unfold field? at h
  split at h
  · rename_i d _
    refine ⟨d, ?_⟩
    cases hd : value d with
    | ok y =>
      rw [hd] at h
      cases h
      rfl
    | error e =>
      rw [hd] at h
      cases h
  · cases h

@[simp] theorem need_eq_ok_iff {name : String} {o : Option α} :
    need name o = .ok x ↔ o = some x := by
  cases o <;> simp [need]

/-- Reading in order consists of what is read first and what is read after it. -/
theorem of_items_bind {β : Type} {m : Items F α} {k : α → Items F β} {s s' : List (Document F)}
    {b : β} (h : (m >>= k) s = .ok (b, s')) : ∃ a s₁, m s = .ok (a, s₁) ∧ k a s₁ = .ok (b, s') := by
  obtain ⟨⟨a, s₁⟩, hm, hk⟩ := bind_eq_ok_iff.mp h
  exact ⟨a, s₁, hm, hk⟩

theorem of_item? {s s' : List (Document F)} (h : item? value s = .ok (some x, s')) :
    ∃ d, value d = .ok x := by
  cases s with
  | nil => cases h
  | cons d rest =>
    obtain ⟨y, hy, h⟩ := bind_eq_ok_iff.mp h
    cases h
    exact ⟨d, hy⟩

theorem of_item {s s' : List (Document F)} (h : item value s = .ok (x, s')) :
    ∃ d, value d = .ok x := by
  obtain ⟨o, s₁, ho, h⟩ := of_items_bind h
  cases o with
  | some y =>
    cases h
    exact of_item? ho
  | none => cases h

end Document

namespace Tape

open Document

variable {t : Tape F}

/-- A tape without operators whose tables hold short numbers. -/
structure Narrow (t : Tape F) : Prop where
  starts_lt : ∀ i ∈ t.argStart, i < Index.argBound
  args_lt : ∀ i ∈ t.args, i < Index.argBound
  resultRows_lt : ∀ i ∈ t.resultRows, i < Index.argBound
  independents_lt : t.independents < Index.argBound
  rows_lt : t.rows < Index.argBound
  loads_lt : t.loads < Index.argBound
  registry : t.registry = #[]

/-- Numbers that are read are short. -/
theorem lt_of_shorts {xs : Array Nat} (h : ∃ d : Document F, array short d = .ok xs) :
    ∀ i ∈ xs, i < Index.argBound := by
  obtain ⟨d, hd⟩ := h
  exact forall_of_array (fun _ _ => lt_of_nat) hd

theorem lt_of_short {n : Nat} (h : ∃ d : Document F, short d = .ok n) : n < Index.argBound := by
  obtain ⟨d, hd⟩ := h
  exact lt_of_nat hd

/-- A count of loads that is not stored is zero. -/
theorem lt_of_short? {o : Option Nat} (h : ∀ n, o = some n → ∃ d : Document F, short d = .ok n) :
    o.getD 0 < Index.argBound := by
  cases o with
  | some n => exact lt_of_short (h n rfl)
  | none => exact (by decide : 0 < Index.argBound)

/-- The tables that some document stands for, by the names of its fields or by their order, are
those that hold short numbers and no operators. -/
theorem readTables_iff [Scalar F] : (∃ d, readTables d = .ok t) ↔ t.Narrow := by
  constructor
  · rintro ⟨d, h⟩
    cases d with
    | list items =>
      obtain ⟨⟨t', rest⟩, h, hend⟩ := bind_eq_ok_iff.mp h
      obtain ⟨-, -, ht⟩ := bind_eq_ok_iff.mp hend
      cases ht
      obtain ⟨ops, _, hops, h⟩ := of_items_bind h
      obtain ⟨starts, _, hstarts, h⟩ := of_items_bind h
      obtain ⟨args, _, hargs, h⟩ := of_items_bind h
      obtain ⟨resultRows, _, hrows, h⟩ := of_items_bind h
      obtain ⟨params, _, hparams, h⟩ := of_items_bind h
      obtain ⟨independents, _, hindependents, h⟩ := of_items_bind h
      obtain ⟨rows, _, hcount, h⟩ := of_items_bind h
      obtain ⟨loads, _, hloads, h⟩ := of_items_bind h
      cases h
      exact ⟨lt_of_shorts (of_item hstarts), lt_of_shorts (of_item hargs),
        lt_of_shorts (of_item hrows), lt_of_short (of_item hindependents),
        lt_of_short (of_item hcount), lt_of_short? fun n hn => of_item? (hn ▸ hloads), rfl⟩
    | record fields =>
      simp only [readTables, bind_eq_ok_iff, need_eq_ok_iff] at h
      obtain ⟨_, hops, _, hstarts, _, hargs, _, hrows, _, hparams, _, hindependents, _, hcount, loads,
        hloads, _, rfl, _, rfl, _, rfl, _, rfl, _, rfl, _, rfl, _, rfl, h⟩ := h
      cases h
      exact ⟨lt_of_shorts (of_field? hstarts), lt_of_shorts (of_field? hargs),
        lt_of_shorts (of_field? hrows), lt_of_short (of_field? hindependents),
        lt_of_short (of_field? hcount), lt_of_short? fun n hn => of_field? (hn ▸ hloads), rfl⟩
    | _ => cases h
  · intro h
    have hstarts : array (F := F) short _ = _ := array_ofNats h.starts_lt
    have hargs : array (F := F) short _ = _ := array_ofNats h.args_lt
    have hrows : array (F := F) short _ = _ := array_ofNats h.resultRows_lt
    have hindependents : short (F := F) _ = _ := nat_ofNat h.independents_lt
    have hcount : short (F := F) _ = _ := nat_ofNat h.rows_lt
    have hloads : short (F := F) _ = _ := nat_ofNat h.loads_lt
    have hparams : array scalar (.list (t.params.toList.map .real)) = .ok t.params :=
      array_map .real fun _ _ => rfl
    refine ⟨.list [.list (t.ops.toList.map (.text ·.name)), ofNats t.argStart, ofNats t.args,
      ofNats t.resultRows, .list (t.params.toList.map .real), ofNat t.independents, ofNat t.rows,
      ofNat t.loads], inOrder_of_eq ?_⟩
    rw [item_bind (array_opcodes t.ops), item_bind hstarts, item_bind hargs, item_bind hrows,
      item_bind hparams, item_bind hindependents, item_bind hcount, item?_bind hloads, ← h.registry]
    rfl

/-- What reading a tape finds out about it. -/
structure Readable (t : Tape F) : Prop extends Narrow t where
  starts_size : t.argStart.size = t.ops.size + 1
  rows_size : t.resultRows.size = t.ops.size
  last : t.argStart.back? = some t.args.size
  first : t.ops[0]? = some .start
  calls : .callMarker ∉ t.ops

theorem exists_ofDocument_iff [Scalar F] : (∃ d, ofDocument d = .ok t) ↔ t.Readable := by
  have hchecks : (t.tablesAgree = true ∧ t.ops[0]? = some .start ∧ .callMarker ∉ t.ops) ∧ t.Narrow ↔
      t.Readable := by
    simp only [tablesAgree, Bool.and_eq_true, decide_eq_true_eq]
    constructor
    · rintro ⟨⟨⟨⟨hstarts, hrows⟩, hlast⟩, hfirst, hcalls⟩, hnarrow⟩
      exact { hnarrow with
        starts_size := hstarts, rows_size := hrows, last := hlast, first := hfirst, calls := hcalls }
    · exact fun h => ⟨⟨⟨⟨h.starts_size, h.rows_size⟩, h.last⟩, h.first, h.calls⟩, h.toNarrow⟩
  rw [← hchecks, ← readTables_iff, ← exists_and_left]
  simp only [ofDocument, bind_eq_ok_iff, check_eq_ok_iff, Array.contains_iff_mem]
  constructor
  · rintro ⟨d, t', hread, _, hagree, _, hfirst, _, hcalls, ht⟩
    cases ht
    exact ⟨d, ⟨hagree, hfirst, hcalls⟩, hread⟩
  · rintro ⟨d, ⟨hagree, hfirst, hcalls⟩, hread⟩
    exact ⟨d, t, hread, (), hagree, (), hfirst, (), hcalls, rfl⟩

/-- Tables are refused as inconsistent for their lengths or for the last offset alone. -/
theorem ofDocument_inconsistent_iff [Scalar F] {d : Document F} (h : readTables d = .ok t) :
    ofDocument d = .error .inconsistentTables ↔
      ¬ (t.argStart.size = t.ops.size + 1 ∧ t.resultRows.size = t.ops.size ∧
        t.argStart.back? = some t.args.size) := by
  have hagree : t.tablesAgree = true ↔ t.argStart.size = t.ops.size + 1 ∧
      t.resultRows.size = t.ops.size ∧ t.argStart.back? = some t.args.size := by
    simp [tablesAgree, and_assoc]
  rw [← hagree]
  -- The checks after the first refuse for other reasons.
  simp [ofDocument, h, bind_eq_error_iff, -bind_pure_comp, pure, Except.pure]

/-- The table of offsets never falls. -/
def OffsetsRise (t : Tape F) : Prop := t.argStart.toList.IsChain (· ≤ ·)

instance (t : Tape F) : Decidable t.OffsetsRise :=
  inferInstanceAs (Decidable (t.argStart.toList.IsChain (· ≤ ·)))

/-- Offsets never fall if they do not from one instruction to the next. -/
theorem offsetsRise_iff : t.OffsetsRise ↔
    ∀ i a b, t.argStart[i]? = some a → t.argStart[i + 1]? = some b → a ≤ b := by
  rw [OffsetsRise, List.isChain_iff_getElem]
  simp only [Array.getElem_toList, Array.length_toList]
  constructor
  · rintro h i a b ha hb
    obtain ⟨_, rfl⟩ := Array.getElem?_eq_some_iff.mp ha
    obtain ⟨hi, rfl⟩ := Array.getElem?_eq_some_iff.mp hb
    exact h i hi
  · exact fun h i hi =>
      h i _ _ (Array.getElem?_eq_getElem (by omega)) (Array.getElem?_eq_getElem hi)

theorem OffsetsRise.le_of_lt (h : t.OffsetsRise) {i j a b : Nat} (hij : i < j)
    (ha : t.argStart[i]? = some a) (hb : t.argStart[j]? = some b) : a ≤ b := by
  obtain ⟨hi, rfl⟩ := Array.getElem?_eq_some_iff.mp ha
  obtain ⟨hj, rfl⟩ := Array.getElem?_eq_some_iff.mp hb
  exact List.pairwise_iff_getElem.mp h.pairwise i j hi hj hij

namespace Readable

variable {i : Nat}

theorem exists_offsets (h : t.Readable) (hi : i < t.ops.size) :
    ∃ a b, t.argStart[i]? = some a ∧ t.argStart[i + 1]? = some b := by
  have hsize := h.starts_size
  exact ⟨_, _, Array.getElem?_eq_getElem (by omega), Array.getElem?_eq_getElem (by omega)⟩

/-- Looking up an instruction is taking the slice of its arguments. -/
theorem instr_eq (h : t.Readable) (hi : i < t.ops.size) {a b : Nat}
    (ha : t.argStart[i]? = some a) (hb : t.argStart[i + 1]? = some b) :
    ∃ op row, t.ops[i]? = some op ∧ t.resultRows[i]? = some row ∧
      t.instr i = do return ⟨op, ← Index.slice t.args a b, row⟩ := by
  have hrow : i < t.resultRows.size := h.rows_size.symm ▸ hi
  refine ⟨_, _, Array.getElem?_eq_getElem hi, Array.getElem?_eq_getElem hrow, ?_⟩
  unfold instr
  rw [Index.get_eq_ok_iff.mpr ha, Index.get_eq_ok_iff.mpr hb,
    Index.get_eq_ok_iff.mpr (Array.getElem?_eq_getElem hi),
    Index.get_eq_ok_iff.mpr (Array.getElem?_eq_getElem hrow)]
  rfl

theorem instr_eq_ok_iff (h : t.Readable) (hi : i < t.ops.size) {a b : Nat}
    (ha : t.argStart[i]? = some a) (hb : t.argStart[i + 1]? = some b) (ins : Instr) :
    t.instr i = .ok ins ↔ (a ≤ b ∧ b ≤ t.args.size) ∧ t.ops[i]? = some ins.op ∧
      ins.args = (t.args.extract a b).toList ∧ t.resultRows[i]? = some ins.row := by
  obtain ⟨op, row, hop, hrow, hinstr⟩ := h.instr_eq hi ha hb
  rw [hinstr, bind_eq_ok_iff, hop, hrow]
  simp only [Index.slice_eq_ok_iff]
  constructor
  · rintro ⟨args, ⟨hrange, rfl⟩, hins⟩
    cases hins
    exact ⟨hrange, rfl, rfl, rfl⟩
  · rintro ⟨hrange, hop, hargs, hrow⟩
    cases hop
    cases hrow
    exact ⟨ins.args, ⟨hrange, hargs⟩, rfl⟩

theorem instr_eq_error_iff (h : t.Readable) (hi : i < t.ops.size) {a b : Nat}
    (ha : t.argStart[i]? = some a) (hb : t.argStart[i + 1]? = some b) (f : Fault) :
    t.instr i = .error f ↔ Index.slice t.args a b = .error f := by
  obtain ⟨op, row, -, -, hinstr⟩ := h.instr_eq hi ha hb
  rw [hinstr]
  cases Index.slice t.args a b with
  | ok args => exact ⟨nofun, nofun⟩
  | error f' =>
    show Except.error f' = .error f ↔ _
    simp only [Except.error.injEq]

/-- All instructions can be looked up exactly if the offsets never fall. The last offset bounds all
of them then. -/
theorem instrs_iff (h : t.Readable) :
    (∀ i < t.ops.size, ∃ ins, t.instr i = .ok ins) ↔ t.OffsetsRise := by
  have hsize := h.starts_size
  constructor
  · rw [offsetsRise_iff]
    intro hall i a b ha hb
    have hi : i < t.ops.size := by
      have := (Array.getElem?_eq_some_iff.mp hb).1
      omega
    obtain ⟨ins, hins⟩ := hall i hi
    exact ((h.instr_eq_ok_iff hi ha hb ins).mp hins).1.1
  · intro hrise i hi
    obtain ⟨a, b, ha, hb⟩ := h.exists_offsets hi
    have hlast : t.argStart[t.ops.size]? = some t.args.size := by
      rw [← h.last, Array.back?, hsize, Nat.add_sub_cancel]
    have hstop : b ≤ t.args.size := by
      rcases Nat.lt_or_eq_of_le (Nat.succ_le_of_lt hi) with hlt | heq
      · exact hrise.le_of_lt hlt hb hlast
      · rw [← heq, hb] at hlast
        exact Nat.le_of_eq (Option.some.inj hlast)
    obtain ⟨op, row, hop, hrow, -⟩ := h.instr_eq hi ha hb
    exact ⟨⟨op, (t.args.extract a b).toList, row⟩, (h.instr_eq_ok_iff hi ha hb _).mpr
      ⟨⟨hrise.le_of_lt (Nat.lt_succ_self i) ha hb, hstop⟩, hop, rfl, hrow⟩⟩

/-- With other offsets between the ends a tape is read as well. -/
theorem with_starts (h : t.Readable) {starts : Array Nat} (hsize : starts.size = t.argStart.size)
    (hlast : starts.back? = t.argStart.back?) (hshort : ∀ i ∈ starts, i < Index.argBound) :
    ({ t with argStart := starts } : Tape F).Readable :=
  { h with
    starts_lt := hshort
    starts_size := hsize.trans h.starts_size
    last := hlast.trans h.last }

end Readable

/-- An instruction of a tape that has been read can be looked up exactly if its offsets are in order
and lie within the arguments, and otherwise looking it up ends in the fault of that slice. All of
them can be looked up exactly if the offsets never fall. Reading does not find out whether they do:
it takes any offsets between the ends. -/
theorem ofDocument_offsets [Scalar F] {d : Document F} (h : ofDocument d = .ok t) :
    (∀ i < t.ops.size, ∃ a b, t.argStart[i]? = some a ∧ t.argStart[i + 1]? = some b ∧
      (∀ ins, t.instr i = .ok ins ↔ (a ≤ b ∧ b ≤ t.args.size) ∧ t.ops[i]? = some ins.op ∧
        ins.args = (t.args.extract a b).toList ∧ t.resultRows[i]? = some ins.row) ∧
      ∀ f, t.instr i = .error f ↔
        (t.args.size < a ∧ f = .sliceStart a t.args.size) ∨
        (a ≤ t.args.size ∧ t.args.size < b ∧ f = .sliceStop b t.args.size) ∨
        (a ≤ t.args.size ∧ b < a ∧ f = .sliceReversed a b)) ∧
      ((∀ i < t.ops.size, ∃ ins, t.instr i = .ok ins) ↔ t.OffsetsRise) ∧
      ∀ starts : Array Nat, starts.size = t.argStart.size → starts.back? = t.argStart.back? →
        (∀ i ∈ starts, i < Index.argBound) →
        ∃ d', ofDocument d' = .ok { t with argStart := starts } := by
  have hreadable := exists_ofDocument_iff.mp ⟨d, h⟩
  refine ⟨fun i hi => ?_, hreadable.instrs_iff, fun starts hsize hlast hshort =>
    exists_ofDocument_iff.mpr (hreadable.with_starts hsize hlast hshort)⟩
  obtain ⟨a, b, ha, hb⟩ := hreadable.exists_offsets hi
  exact ⟨a, b, ha, hb, hreadable.instr_eq_ok_iff hi ha hb, fun f =>
    (hreadable.instr_eq_error_iff hi ha hb f).trans Index.slice_eq_error_iff⟩

/-- The tables of two exponentials, one of the other. -/
def chainTape : Tape Float where
  ops := #[.start, .independent, .elementary .exp, .elementary .exp, .stop]
  argStart := #[0, 1, 1, 2, 3, 3]
  args := #[0, 1, 2]
  resultRows := #[0, 1, 2, 3, 3]
  params := #[]
  independents := 1
  rows := 4
  loads := 0
  registry := #[]

/-- The same with an offset that passes the last argument. -/
def fallingTape : Tape Float := { chainTape with argStart := #[0, 1, 1, 5, 3, 3] }

theorem chainTape_storable : chainTape.Storable where
  first := rfl
  starts_size := rfl
  rows_size := rfl
  last := rfl
  starts_lt := by decide
  args_lt := by decide
  resultRows_lt := by decide
  params_lt := by decide
  independents_lt := by decide
  rows_lt := by decide
  loads_lt := by decide
  registry_lt := by decide
  calls := by simp [chainTape]

theorem chainTape_read : ofDocument (.record chainTape.fields) = .ok chainTape :=
  (chainTape_storable.ofDocument_fields (by decide) (by simp [chainTape]) rfl).1

theorem fallingTape_read : ofDocument (.record fallingTape.fields) = .ok fallingTape := by
  have h : fallingTape.Storable :=
    { chainTape_storable with starts_size := rfl, last := rfl, starts_lt := by decide }
  exact (h.ofDocument_fields (by decide) (by simp [fallingTape, chainTape]) rfl).1

/-- The instructions of the one tape can all be looked up, and two of the other cannot. -/
theorem chainTape_offsets :
    (∀ i < chainTape.ops.size, ∃ ins, chainTape.instr i = .ok ins) ∧
      fallingTape.instr 2 = .error (.sliceStop 5 3) ∧
      fallingTape.instr 3 = .error (.sliceStart 5 3) := by
  obtain ⟨-, hall, -⟩ := ofDocument_offsets chainTape_read
  obtain ⟨hinstr, -, -⟩ := ofDocument_offsets fallingTape_read
  obtain ⟨a, b, ha, hb, -, hfault⟩ := hinstr 2 (by decide)
  obtain ⟨a', b', ha', hb', -, hfault'⟩ := hinstr 3 (by decide)
  cases ha
  cases hb
  cases ha'
  cases hb'
  exact ⟨hall.mpr (by decide), (hfault _).mpr (by decide), (hfault' _).mpr (by decide)⟩

/-- A tape is read whose offsets lead past its arguments, and a sweep of it stops there. -/
theorem reading_takes_falling_offsets :
    ¬ (∀ (d : Document Float) (t : Tape Float), ofDocument d = .ok t →
        ∀ i < t.ops.size, ∃ ins, t.instr i = .ok ins) ∧
      (fallingTape.sweep 1 ⟨⟨⟨2, 1⟩, Array.replicate 8 1⟩, 4⟩ fallingTape.noSkip #[] {}).stop =
        some (.fault (.sliceStop 5 3)) := by
  refine ⟨fun h => ?_, by decide +kernel⟩
  obtain ⟨ins, hins⟩ := h _ _ fallingTape_read 2 (by decide)
  cases hins

end Tape

end JetTape
