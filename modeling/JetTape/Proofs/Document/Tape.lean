import JetTape.Document.Tape
import JetTape.Proofs.Tape.Storable
import JetTape.Tape.Sweep

/-!
Storing tapes. What recording leaves, whether or not steps have ended in faults, can be stored unless
it has operators, and what is stored is read back as the tape that it was.
-/
namespace JetTape

variable {F : Type}

namespace Document

/-- A list whose items are read back one by one is read back. -/
theorem array_map {α : Type} {read : Reader F α} (write : α → Document F) {xs : Array α}
    (h : ∀ x ∈ xs, read (write x) = .ok x) : array read (.list (xs.toList.map write)) = .ok xs := by
  have hread : ∀ l : List α, (∀ x ∈ l, read (write x) = .ok x) →
      (l.map write).mapM read = .ok l := by
    intro l hl
    induction l with
    | nil => rfl
    | cons x l ih =>
      obtain ⟨hx, hrest⟩ := List.forall_mem_cons.mp hl
      rw [List.map_cons, List.mapM_cons, hx, ih hrest]
      rfl
  show (do return (← (xs.toList.map write).mapM read).toArray) = Except.ok xs
  rw [hread xs.toList fun x hx => h x (Array.mem_toList_iff.mp hx)]
  rfl

theorem nat_ofNat {bound n : Nat} (h : n < bound) : nat bound (ofNat n : Document F) = .ok n := by
  have hin : 0 ≤ (n : Int) ∧ (n : Int) < bound := ⟨Int.natCast_nonneg n, Int.ofNat_lt.mpr h⟩
  exact if_pos hin

/-- Numbers below a bound are read back. -/
theorem array_ofNats {bound : Nat} {xs : Array Nat} (h : ∀ n ∈ xs, n < bound) :
    array (nat bound) (ofNats xs : Document F) = .ok xs :=
  array_map ofNat fun n hn => nat_ofNat (h n hn)

/-- Names of operations are read back. -/
theorem array_opcodes (ops : Array Opcode) :
    array opcode (.list (ops.toList.map (.text ·.name)) : Document F) = .ok ops :=
  array_map (fun op : Opcode => .text op.name) fun op _ => by simp [opcode]

/-- Finite coefficients are read back. -/
theorem array_ofScalars [Binary F] {xs : Array F} (h : ∀ x ∈ xs, Binary.isFinite x = true) :
    array scalar (ofScalars xs) = .ok xs :=
  array_map ofScalar fun x hx => by
    rw [ofScalar, if_pos (h x hx)]
    rfl

section Fields

variable {α : Type} {d : Document F} {value : Reader F α} {x : α}

theorem field?_of_lookup {fields : List (String × Document F)} {name : String}
    (hd : fields.lookup name = some d) (hx : value d = .ok x) :
    field? fields name value = .ok (some x) := by
  unfold field?
  rw [hd]
  show some <$> value d = _
  rw [hx]
  rfl

/-- After the next item the rest is read. -/
theorem item?_bind {β : Type} (hx : value d = .ok x) (k : Option α → Items F β)
    (rest : List (Document F)) : (item? value >>= k) (d :: rest) = k (some x) rest := by
  have hitem : item? value (d :: rest) = .ok (some x, rest) := by
    show (do return (some (← value d), rest)) = Except.ok _
    rw [hx]
    rfl
  show (do let (a, s) ← item? value (d :: rest); k a s) = _
  rw [hitem]
  rfl

theorem item_bind {β : Type} (hx : value d = .ok x) (k : α → Items F β)
    (rest : List (Document F)) : (item value >>= k) (d :: rest) = k x rest := by
  unfold item
  rw [bind_assoc, item?_bind hx]
  rfl

theorem inOrder_of_eq {m : Items F α} {items : List (Document F)} (h : m items = .ok (x, [])) :
    inOrder m items = .ok x := by
  unfold inOrder
  rw [h]
  rfl

end Fields

end Document

namespace Tape

open Document

variable [Binary F] {t : Tape F}

/-- The fields of a stored tape. -/
def fields (t : Tape F) : List (String × Document F) := [
  ("ops", .list (t.ops.toList.map (.text ·.name))),
  ("arg_start", ofNats t.argStart),
  ("args", ofNats t.args),
  ("result_vars", ofNats t.resultRows),
  ("parameters", ofScalars t.params),
  ("num_independent", ofNat t.independents),
  ("num_variables", ofNat t.rows),
  ("num_load_ops", ofNat t.loads)]

theorem toDocument_eq (t : Tape F) :
    t.toDocument = if t.callsOperators then .error .callsOperators else .ok (.record t.fields) :=
  rfl

/-- The tables are read as they have been written, whether the fields are found by their names or
by their order. -/
theorem Storable.readTables_fields (h : t.Storable)
    (hfinite : ∀ x ∈ t.params, Binary.isFinite x = true) :
    readTables (.record t.fields) = .ok { t with registry := #[] } ∧
      readTables (.list (t.fields.map (·.2))) = .ok { t with registry := #[] } := by
  have hstarts : array (F := F) short _ = _ := array_ofNats h.starts_lt
  have hargs : array (F := F) short _ = _ := array_ofNats h.args_lt
  have hrows : array (F := F) short _ = _ := array_ofNats h.resultRows_lt
  have hindependents : short (F := F) _ = _ := nat_ofNat h.independents_lt
  have hcount : short (F := F) _ = _ := nat_ofNat h.rows_lt
  have hloads : short (F := F) _ = _ := nat_ofNat h.loads_lt
  have hops := array_opcodes (F := F) t.ops
  have hparams := array_ofScalars hfinite
  constructor
  · have ops : field? t.fields "ops" (array Document.opcode) = _ := field?_of_lookup rfl hops
    have argStart : field? t.fields "arg_start" (array short) = _ := field?_of_lookup rfl hstarts
    have args : field? t.fields "args" (array short) = _ := field?_of_lookup rfl hargs
    have resultRows : field? t.fields "result_vars" (array short) = _ :=
      field?_of_lookup rfl hrows
    have params : field? t.fields "parameters" (array scalar) = _ := field?_of_lookup rfl hparams
    have independents : field? t.fields "num_independent" short = _ :=
      field?_of_lookup rfl hindependents
    have rows : field? t.fields "num_variables" short = _ := field?_of_lookup rfl hcount
    have loads : field? t.fields "num_load_ops" short = _ := field?_of_lookup rfl hloads
    unfold readTables
    dsimp only
    rw [ops, argStart, args, resultRows, params, independents, rows, loads]
    rfl
  · apply inOrder_of_eq
    show (item (array Document.opcode) >>= _)
      [.list (t.ops.toList.map (.text ·.name)), ofNats t.argStart, ofNats t.args,
        ofNats t.resultRows, ofScalars t.params, ofNat t.independents, ofNat t.rows,
        ofNat t.loads] = _
    rw [item_bind hops, item_bind hstarts, item_bind hargs, item_bind hrows, item_bind hparams,
      item_bind hindependents, item_bind hcount, item?_bind hloads]
    rfl

/-- A tape without operators is read back as it was. -/
theorem Storable.ofDocument_fields (h : t.Storable) (hargs : t.args.size < Index.argBound)
    (hfinite : ∀ x ∈ t.params, Binary.isFinite x = true) (hregistry : t.registry = #[]) :
    ofDocument (.record t.fields) = .ok t ∧ ofDocument (.list (t.fields.map (·.2))) = .ok t := by
  obtain ⟨hrecord, hlist⟩ := h.readTables_fields hfinite
  have hsame : ({ t with registry := #[] } : Tape F) = t := by
    cases t
    cases hregistry
    rfl
  rw [hsame] at hrecord hlist
  have hagree : t.tablesAgree = true := by
    simp [tablesAgree, h.starts_size, h.rows_size, h.last, Index.toArg_of_lt hargs]
  have hcalls : ¬ t.ops.contains .callMarker := by
    rw [Array.contains_iff_mem]
    intro hmem
    have := h.calls hmem
    simp [hregistry] at this
  have hread {d : Document F} (hd : readTables d = .ok t) : ofDocument d = .ok t := by
    simp only [ofDocument, bind_eq_ok_iff, check_eq_ok_iff]
    exact ⟨t, hd, (), hagree, (), h.first, (), hcalls, rfl⟩
  exact ⟨hread hrecord, hread hlist⟩

/-- After any steps a tape can be stored unless an operator has been registered, and then it is read
back as it was, so that all its sweeps are the same. -/
theorem ofAttempts_stored {actions : List (Recorder.Action F)}
    (hshort : ∀ action ∈ actions, action.Short)
    (hargs : (ofAttempts actions).args.size < Index.argBound)
    (hfinite : ∀ x ∈ (ofAttempts actions).params, Binary.isFinite x = true) :
    let t := ofAttempts actions
    (t.toDocument = .error .callsOperators ↔ ∃ operator, .register operator ∈ actions) ∧
      ((∀ operator, .register operator ∉ actions) → ∃ fields,
        t.toDocument = .ok (.record fields) ∧ ofDocument (.record fields) = .ok t ∧
          ofDocument (.list (fields.map (·.2))) = .ok t ∧ t.registry = #[] ∧
          ∀ u, ofDocument (.record fields) = .ok u → ∀ q b mask resolved options,
            u.sweep q b mask resolved options = t.sweep q b mask resolved options ∧
              u.sweepOrders q b mask resolved options = t.sweepOrders q b mask resolved options) := by
  intro t
  obtain ⟨hstorable, hregistered⟩ := storable_ofAttempts hshort
  have hcalls : t.callsOperators = true ↔ ∃ operator, .register operator ∈ actions := by
    rw [← hregistered]
    simp [callsOperators, t, Array.size_pos_iff]
  rw [toDocument_eq]
  constructor
  · rw [← hcalls]
    split <;> simp_all
  · intro hnone
    have hempty : t.registry = #[] := by
      rw [← Array.size_eq_zero_iff]
      apply Nat.eq_zero_of_not_pos
      intro hpos
      obtain ⟨operator, hmem⟩ := hregistered.mp hpos
      exact hnone operator hmem
    obtain ⟨hrecord, hlist⟩ := hstorable.ofDocument_fields hargs hfinite hempty
    refine ⟨t.fields, if_neg ?_, hrecord, hlist, hempty, ?_⟩
    · simp [callsOperators, hempty]
    · intro u hu q b mask resolved options
      rw [hrecord] at hu
      cases hu
      exact ⟨rfl, rfl⟩

end Tape

/-- A session over floating point in which a sum of an undeclared variable and a constant behind the
`stop` end in faults. -/
def faultySession : List (Recorder.Action Float) :=
  [.independents 2, .operation (.arithmetic .addVV) [1, 7], .parameter 0.5, .erf 1, .load 3 (.var 2),
    .discrete 9 8, .finish, .constant 0]

namespace Tape

/-- The faults leave a tape that is stored and read back. -/
theorem faultySession_stored :
    (∀ action ∈ faultySession, action.Short) ∧ Recorder.Succeeds faultySession = false ∧
      ∃ fields, (ofAttempts faultySession).toDocument = .ok (.record fields) ∧
        ofDocument (.record fields) = .ok (ofAttempts faultySession) := by
  have hshort : ∀ action ∈ faultySession, action.Short := by
    simp [faultySession, Recorder.Action.Short, Index.argBound]
  obtain ⟨fields, hstored, hread, -⟩ := (ofAttempts_stored hshort (by decide +kernel)
    (by decide +kernel)).2 (by simp [faultySession])
  exact ⟨hshort, by decide +kernel, fields, hstored, hread⟩

end Tape

end JetTape
