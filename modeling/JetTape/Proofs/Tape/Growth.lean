import JetTape.Proofs.Tape.Items
import JetTape.Proofs.Tape.Session

/-!
What recording steps do to a tape. A step that comes out well appends instructions and may extend
the parameter table, the load slots and the registry; it changes nothing else. What it appends is
valid where it stands.
-/
namespace JetTape

variable {F : Type}

theorem Index.count_eq_ok_iff {a b c : Nat} :
    Index.count a b = .ok c ↔ a + b < Index.argBound ∧ c = a + b := by
  unfold Index.count
  split <;> simp [eq_comm] <;> omega

namespace Tape

/-- The tape `t'` is `t` with the instructions `l` appended. -/
structure Extends (t t' : Tape F) (l : List Instr) : Prop where
  ops : t'.ops = t.ops ++ (l.map (·.op)).toArray
  lists : ∀ l₀, t.Lists l₀ → t'.Lists (l₀ ++ l)
  placed : 0 < t.rows → Placed t.rows l
  rows : t'.rows = t.rows + rowCount l
  independents : t'.independents = t.independents
  params : t.params.size ≤ t'.params.size
  loads : t.loads ≤ t'.loads
  registry : t.registry.size ≤ t'.registry.size
  bound : t.rows < Index.argBound → t'.rows < Index.argBound
  running : l ≠ [] → t.isStopped = false

/-- Tables that stay while parameters, load slots or operators are added. -/
theorem extends_of_tables {t : Tape F} {params : Array F} {loads : Nat}
    {registry : Array (Operator F)} (hp : t.params.size ≤ params.size) (hm : t.loads ≤ loads)
    (hk : t.registry.size ≤ registry.size) :
    t.Extends { t with params, loads, registry } [] where
  ops := by simp
  lists l₀ h := by
    rw [List.append_nil]
    exact ⟨h.ops, h.args, h.starts_size, h.starts, h.resultRows⟩
  placed _ := trivial
  rows := rfl
  independents := rfl
  params := hp
  loads := hm
  registry := hk
  bound := id
  running h := absurd rfl h

theorem Extends.refl (t : Tape F) : t.Extends t [] :=
  extends_of_tables (Nat.le_refl _) (Nat.le_refl _) (Nat.le_refl _)

theorem Extends.trans {t t' t'' : Tape F} {l l' : List Instr} (h : t.Extends t' l)
    (h' : t'.Extends t'' l') : t.Extends t'' (l ++ l') where
  ops := by rw [h'.ops, h.ops]; simp
  lists l₀ h₀ := by
    rw [← List.append_assoc]
    exact h'.lists _ (h.lists l₀ h₀)
  placed hpos := by
    rw [placed_append, ← h.rows]
    exact ⟨h.placed hpos, h'.placed (by rw [h.rows]; omega)⟩
  rows := by rw [h'.rows, h.rows, rowCount_append, Nat.add_assoc]
  independents := h'.independents.trans h.independents
  params := Nat.le_trans h.params h'.params
  loads := Nat.le_trans h.loads h'.loads
  registry := Nat.le_trans h.registry h'.registry
  bound hb := h'.bound (h.bound hb)
  running hne := by
    cases l with
    | nil =>
      have hsame : t'.isStopped = t.isStopped := by simp [isStopped, h.ops]
      rw [← hsame]
      exact h'.running (by simpa using hne)
    | cons ins l => exact h.running (List.cons_ne_nil ins l)

theorem extends_append {t : Tape F} {op : Opcode} {args : List Nat}
    (hrun : t.isStopped = false) (hb : t.rows + op.resultCount < Index.argBound) :
    t.Extends (t.append op args (t.rows + op.resultCount))
      [⟨op, args, t.rows + op.resultCount - 1⟩] where
  ops := by simp
  lists l₀ h := h.append op args _
  placed hpos := by
    refine ⟨?_, trivial⟩
    show t.rows + op.resultCount - 1 + 1 = t.rows + op.resultCount
    omega
  rows := rfl
  independents := rfl
  params := Nat.le_refl _
  loads := Nat.le_refl _
  registry := Nat.le_refl _
  bound _ := hb
  running _ := hrun

end Tape

namespace Recorder

variable {t t' : Tape F}

/-- A sequence of steps that comes out well consists of such steps. -/
theorem ok_of_bind {α β : Type} {m : Recorder F α} {k : α → Recorder F β} {b : β}
    (h : (m >>= k) t = .ok b t') : ∃ a s, m t = .ok a s ∧ k a s = .ok b t' := by
  change EStateM.bind m k t = _ at h
  rw [EStateM.bind] at h
  cases hm : m t with
  | ok a s =>
    rw [hm] at h
    exact ⟨a, s, rfl, h⟩
  | error f s =>
    rw [hm] at h
    cases h

theorem ok_of_get {β : Type} {k : Tape F → Recorder F β} {b : β}
    (h : (get >>= k) t = .ok b t') : k t t = .ok b t' := h

theorem ok_of_lift {α : Type} {m : Except Fault α} {a : α}
    (h : (liftM m : Recorder F α) t = .ok a t') : m = .ok a ∧ t' = t := by
  cases m with
  | ok x =>
    cases h
    exact ⟨rfl, rfl⟩
  | error f => cases h

/-- A step that only checks: when it comes out well, `p` holds of the tape, which stays. -/
def Checks (m : Recorder F Unit) (p : Tape F → Prop) : Prop :=
  ∀ t u t', m t = .ok u t' → p t ∧ t' = t

/-- After a check that comes out well the rest runs on the same tape. -/
theorem Checks.bind {m : Recorder F Unit} {p : Tape F → Prop} (hm : Checks m p) {β : Type}
    {k : Unit → Recorder F β} {b : β} (h : (m >>= k) t = .ok b t') :
    p t ∧ k () t = .ok b t' := by
  obtain ⟨u, s, hs, hk⟩ := ok_of_bind h
  obtain ⟨hp, rfl⟩ := hm t u s hs
  exact ⟨hp, hk⟩

theorem checks_require {p : Prop} [Decidable p] {f : Fault} :
    Checks (liftM (require p f) : Recorder F Unit) fun _ => p := by
  intro t u t' h
  obtain ⟨hp, hs⟩ := ok_of_lift h
  exact ⟨require_eq_ok_iff.mp hp, hs⟩

theorem checks_var {x : Nat} :
    Checks (checkVar x : Recorder F Unit) fun t => Source.var.Valid t.rows t.params.size x :=
  fun t u t' h => checks_require (p := 0 < x ∧ x < t.rows) t u t' (ok_of_get h)

theorem checks_par {i : Nat} :
    Checks (checkPar i : Recorder F Unit) fun t => Source.par.Valid t.rows t.params.size i :=
  fun t u t' h => checks_require (p := i < t.params.size) t u t' (ok_of_get h)

theorem checks_index {s : Source} {i : Nat} :
    Checks (checkIndex s i : Recorder F Unit) fun t => s.Valid t.rows t.params.size i := by
  cases s with
  | var => exact checks_var
  | par => exact checks_par

theorem checks_operand {a : Operand} :
    Checks (checkOperand a : Recorder F Unit) fun t => a.Valid t.rows t.params.size := by
  intro t u t' h
  show a.Valid _ _ ∧ _
  rw [Operand.valid_iff]
  exact checks_index t u t' h

/-- Checks one after another. -/
theorem checks_forM {α : Type} {check : α → Recorder F Unit} {p : α → Tape F → Prop}
    (hcheck : ∀ a, Checks (check a) (p a)) (l : List α) :
    Checks (l.forM check) fun t => ∀ a ∈ l, p a t := by
  intro t u t' h
  induction l with
  | nil =>
    cases h
    simp
  | cons a l ih =>
    obtain ⟨ha, hl⟩ := (hcheck a).bind (k := fun _ => l.forM check) h
    obtain ⟨hrest, ht⟩ := ih hl
    exact ⟨List.forall_mem_cons.mpr ⟨ha, hrest⟩, ht⟩

theorem ok_of_append {op : Opcode} {args : List Nat} {row : Nat}
    (h : append op args t = .ok row t') :
    t.Extends t' [⟨op, args, t.rows + op.resultCount - 1⟩] := by
  obtain ⟨hrun, hrest⟩ := checks_require.bind (ok_of_get h)
  obtain ⟨rows, _, hcount, hlast⟩ := ok_of_bind (ok_of_get hrest)
  obtain ⟨hcount, rfl⟩ := ok_of_lift hcount
  obtain ⟨hb, rfl⟩ := Index.count_eq_ok_iff.mp hcount
  cases hlast
  exact Tape.extends_append (by simpa using hrun) hb

/-- A new parameter changes the parameter table only. -/
theorem ok_of_parameter {value : F} {p : Nat} (h : parameter value t = .ok p t') :
    t.Extends t' [] ∧ p < t'.params.size := by
  obtain ⟨-, hlast⟩ := checks_require.bind (ok_of_get h)
  cases hlast
  refine ⟨Tape.extends_of_tables (by simp) (Nat.le_refl _) (Nat.le_refl _), ?_⟩
  simp

end Recorder

namespace Tape

/-- The tape `t'` is `t` with items appended that are valid there. -/
structure Gains (t t' : Tape F) (items : List Item) : Prop where
  extends_ : t.Extends t' (instrsOf items)
  valid : 0 < t.rows → ValidItems t'.params.size t'.loads t'.registry.size t.rows items

theorem Gains.trans {t t' t'' : Tape F} {items items' : List Item} (h : t.Gains t' items)
    (h' : t'.Gains t'' items') : t.Gains t'' (items ++ items') where
  extends_ := by
    rw [instrsOf_append]
    exact h.extends_.trans h'.extends_
  valid hpos := by
    have hrows := h.extends_.rows
    rw [validItems_append, ← hrows]
    exact ⟨(h.valid hpos).mono h'.extends_.params h'.extends_.loads h'.extends_.registry,
      h'.valid (by omega)⟩

/-- The tape `t'` is `t` with instructions outside call blocks appended. -/
def GainsPlain (t t' : Tape F) : Prop := ∃ l : List Instr, t.Gains t' (l.map .plain)

theorem Extends.gainsPlain {t t' : Tape F} (h : t.Extends t' []) : t.GainsPlain t' :=
  ⟨[], h, fun _ => trivial⟩

theorem GainsPlain.trans {t t' t'' : Tape F} (h : t.GainsPlain t') (h' : t'.GainsPlain t'') :
    t.GainsPlain t'' := by
  obtain ⟨l, hl⟩ := h
  obtain ⟨l', hl'⟩ := h'
  refine ⟨l ++ l', ?_⟩
  rw [List.map_append]
  exact hl.trans hl'

/-- An instruction outside call blocks is an item of its own. -/
theorem Extends.gainsPlain_cons {t t' : Tape F} {ins : Instr} (h : t.Extends t' [ins])
    (hvalid : Instr.Valid t.rows t.params.size t.loads ins.op ins.args) : t.GainsPlain t' :=
  ⟨[ins], h, fun hpos => ⟨⟨hvalid.mono h.params h.loads, h.placed hpos⟩, trivial⟩⟩

end Tape

namespace Recorder

variable {t t' : Tape F}

theorem gains_append {op : Opcode} {args : List Nat} {row : Nat}
    (h : append op args t = .ok row t')
    (hvalid : Instr.Valid t.rows t.params.size t.loads op args) : t.GainsPlain t' :=
  (ok_of_append h).gainsPlain_cons hvalid

private theorem exists_pair {l : List Source} {args : List Nat} {n p : Nat}
    (hlen : args.length = l.length) (h : ∀ c ∈ l.zip args, c.1.Valid n p c.2) (hl : l.length = 2) :
    ∃ s t a b, l = [s, t] ∧ args = [a, b] ∧ s.Valid n p a ∧ t.Valid n p b := by
  match l, args, hl, hlen with
  | [s, t], [a, b], _, _ =>
    exact ⟨s, t, a, b, rfl, rfl, h (s, a) (by simp), h (t, b) (by simp)⟩

theorem gains_operation {op : Opcode} {args : List Nat} {row : Nat}
    (h : operation op args t = .ok row t') : t.GainsPlain t' := by
  unfold operation at h
  cases hs : op.sources? with
  | none =>
    rw [hs] at h
    cases h
  | some sources =>
    rw [hs] at h
    obtain ⟨hlen, hrest⟩ := checks_require.bind h
    obtain ⟨hchecks, hlast⟩ := (checks_forM (fun _ => checks_index) _).bind hrest
    apply gains_append hlast
    cases op <;> simp only [Opcode.sources?, reduceCtorEq, Option.some.injEq] at hs <;> subst hs
    case arithmetic f =>
      obtain ⟨s, u, a, b, hf, rfl, ha, hb⟩ := exists_pair hlen hchecks (by cases f <;> rfl)
      exact .arithmetic f hf ha hb
    case power f =>
      obtain ⟨s, u, a, b, hf, rfl, ha, hb⟩ := exists_pair hlen hchecks (by cases f <;> rfl)
      exact .power f hf ha hb
    case elementary f =>
      obtain ⟨x, rfl⟩ := List.length_eq_one_iff.mp hlen
      exact .elementary f (hchecks (.var, x) (by simp))

theorem gains_constant {p row : Nat} (h : constant p t = .ok row t') :
    t.GainsPlain t' := by
  obtain ⟨hp, hlast⟩ := checks_par.bind h
  exact gains_append hlast (.constant hp)

theorem gains_erf [Scalar F] {x row : Nat} (h : erf x t = .ok row t') :
    t.GainsPlain t' := by
  obtain ⟨hx, hrest⟩ := checks_var.bind h
  obtain ⟨origin, t₁, horigin, hrest⟩ := ok_of_bind hrest
  obtain ⟨scale, t₂, hscale, hlast⟩ := ok_of_bind hrest
  obtain ⟨h₁, hlt₁⟩ := ok_of_parameter horigin
  obtain ⟨h₂, hlt₂⟩ := ok_of_parameter hscale
  have hvalid : Instr.Valid t₂.rows t₂.params.size t₂.loads .erf [x, origin, scale] := by
    refine .erf (hx.mono ?_ (Nat.le_trans h₁.params h₂.params))
      (Nat.lt_of_lt_of_le hlt₁ h₂.params) hlt₂
    rw [h₂.rows, h₁.rows]
    exact Nat.le_refl _
  exact (h₁.trans h₂).gainsPlain.trans (gains_append hlast hvalid)

theorem gains_discrete {f x row : Nat} (h : discrete f x t = .ok row t') :
    t.GainsPlain t' := by
  obtain ⟨hx, hlast⟩ := checks_var.bind h
  exact gains_append hlast (.discrete f hx)

theorem gains_choose {r : Relation} {left right ifTrue ifFalse : Operand} {row : Nat}
    (h : choose r left right ifTrue ifFalse t = .ok row t') : t.GainsPlain t' := by
  obtain ⟨hl, hrest⟩ := checks_operand.bind h
  obtain ⟨hr, hrest⟩ := checks_operand.bind hrest
  obtain ⟨ht, hrest⟩ := checks_operand.bind hrest
  obtain ⟨hf, hlast⟩ := checks_operand.bind hrest
  exact gains_append hlast (.choose r hl hr ht hf)

theorem gains_sum {p : Nat} {added subtracted : List Nat} {row : Nat}
    (h : sum p added subtracted t = .ok row t') : t.GainsPlain t' := by
  obtain ⟨hp, hrest⟩ := checks_par.bind h
  obtain ⟨hx, hlast⟩ := (checks_forM (fun _ => checks_var) _).bind hrest
  exact gains_append hlast (.sum hp hx)

theorem gains_skip {r : Relation} {left right : Operand} {ifTrue ifFalse : List Nat} {u : Unit}
    (h : skip r left right ifTrue ifFalse t = .ok u t') : t.GainsPlain t' := by
  obtain ⟨hl, hrest⟩ := checks_operand.bind h
  obtain ⟨hr, hrest⟩ := checks_operand.bind hrest
  obtain ⟨_, _, happend, ⟨⟩⟩ := ok_of_bind hrest
  exact gains_append happend (.skip r ifTrue ifFalse hl hr)

theorem gains_load {offset : Nat} {index : Operand} {row : Nat}
    (h : load offset index t = .ok row t') : t.GainsPlain t' := by
  obtain ⟨hi, hrest⟩ := checks_operand.bind h
  obtain ⟨loads, s, hcount, hrest⟩ := ok_of_bind (ok_of_get hrest)
  obtain ⟨hcount, rfl⟩ := ok_of_lift hcount
  obtain ⟨_, t₁, hmodify, hlast⟩ := ok_of_bind hrest
  cases hmodify
  obtain ⟨-, hloads⟩ := Index.count_eq_ok_iff.mp hcount
  have h₁ : s.Extends { s with loads } [] :=
    Tape.extends_of_tables (Nat.le_refl _) (by omega) (Nat.le_refl _)
  have hvalid : Instr.Valid s.rows s.params.size loads (.load index.source)
      [offset, index.index, s.loads] := .load offset hi (by omega)
  exact h₁.gainsPlain.trans (gains_append hlast hvalid)

theorem gains_store {offset : Nat} {index value : Operand} {u : Unit}
    (h : store offset index value t = .ok u t') : t.GainsPlain t' := by
  obtain ⟨hi, hrest⟩ := checks_operand.bind h
  obtain ⟨hv, hrest⟩ := checks_operand.bind hrest
  obtain ⟨_, _, happend, ⟨⟩⟩ := ok_of_bind hrest
  exact gains_append happend (.store offset hi hv)

theorem gains_compare {op : Opcode} {left right : Nat} {u : Unit}
    (h : compare op left right t = .ok u t') : t.GainsPlain t' := by
  cases op with
  | compare f =>
    obtain ⟨hl, hrest⟩ := checks_index.bind h
    obtain ⟨hr, hrest⟩ := checks_index.bind hrest
    obtain ⟨_, _, happend, ⟨⟩⟩ := ok_of_bind hrest
    exact gains_append happend (.compare f hl hr)
  | _ => cases h

theorem gains_print {position value : Operand} {before after : Nat} {u : Unit}
    (h : print position before value after t = .ok u t') : t.GainsPlain t' := by
  obtain ⟨hp, hrest⟩ := checks_operand.bind h
  obtain ⟨hv, hrest⟩ := checks_operand.bind hrest
  obtain ⟨_, _, happend, ⟨⟩⟩ := ok_of_bind hrest
  exact gains_append happend (.print before after hp hv)

theorem gains_register {operator : Operator F} {handle : Nat}
    (h : register operator t = .ok handle t') : t.GainsPlain t' := by
  obtain ⟨-, hlast⟩ := checks_require.bind (ok_of_get h)
  cases hlast
  apply Tape.Extends.gainsPlain
  exact Tape.extends_of_tables (Nat.le_refl _) (Nat.le_refl _) (by simp)

/-- The arguments of a call append one instruction each and create no rows. -/
theorem extends_callArgs {args : List Operand} {u : Unit} (h : args.forM callArg t = .ok u t') :
    ∃ l, t.Extends t' l ∧ l.length = args.length ∧ rowCount l = 0 ∧
      ∀ ins ∈ l, ∃ a : Operand, a.Valid t.rows t'.params.size ∧ ins.op = .callArg a.source ∧
        ins.args = [a.index] := by
  induction args generalizing t with
  | nil =>
    cases h
    exact ⟨[], .refl t', rfl, rfl, by simp⟩
  | cons a args ih =>
    obtain ⟨_, s, ha, hrest⟩ := ok_of_bind (m := callArg a) (k := fun _ => args.forM callArg) h
    obtain ⟨hvalid, ha⟩ := checks_operand.bind ha
    obtain ⟨_, _, happend, ⟨⟩⟩ := ok_of_bind ha
    have hfirst := ok_of_append happend
    obtain ⟨l, hl, hlen, hzero, hargs⟩ := ih hrest
    have hrows : s.rows = t.rows := hfirst.rows
    refine ⟨_, hfirst.trans hl, by simp [hlen], by simp [hzero, Opcode.resultCount], ?_⟩
    intro ins hins
    rcases List.mem_cons.mp hins with rfl | hins
    · exact ⟨a, hvalid.mono (Nat.le_refl _) (hfirst.trans hl).params, rfl, rfl⟩
    · rw [← hrows]
      exact hargs ins hins

/-- The results of a call append one instruction each. -/
theorem extends_callResults {results : List (CallResult F)} {rows : List (Option Nat)}
    (h : results.mapM callResult t = .ok rows t') :
    ∃ l, t.Extends t' l ∧ l.length = results.length ∧
      ∀ ins ∈ l, ins.op = .callResult .var ∨
        ∃ i, i < t'.params.size ∧ ins.op = .callResult .par ∧ ins.args = [i] := by
  induction results generalizing t rows with
  | nil =>
    cases h
    exact ⟨[], .refl t', rfl, by simp⟩
  | cons r results ih =>
    rw [List.mapM_cons] at h
    obtain ⟨_, s, hr, hrest⟩ := ok_of_bind h
    obtain ⟨_, _, hrest, ⟨⟩⟩ := ok_of_bind hrest
    obtain ⟨l, hl, hlen, hresults⟩ := ih hrest
    cases r with
    | var =>
      obtain ⟨_, _, happend, ⟨⟩⟩ := ok_of_bind hr
      refine ⟨_, (ok_of_append happend).trans hl, by simp [hlen], ?_⟩
      intro ins hins
      rcases List.mem_cons.mp hins with rfl | hins
      · exact Or.inl rfl
      · exact hresults ins hins
    | constant value =>
      obtain ⟨i, _, hparam, hr⟩ := ok_of_bind hr
      obtain ⟨_, _, happend, ⟨⟩⟩ := ok_of_bind hr
      obtain ⟨hextends, hi⟩ := ok_of_parameter hparam
      have hlast := (ok_of_append happend).trans hl
      refine ⟨_, hextends.trans hlast, by simp [hlen], ?_⟩
      intro ins hins
      rcases List.mem_cons.mp hins with rfl | hins
      · exact Or.inr ⟨i, Nat.lt_of_lt_of_le hi hlast.params, rfl, rfl⟩
      · exact hresults ins hins

theorem gains_call {handle callId : Nat} {args : List Operand} {results : List (CallResult F)}
    {rows : List (Option Nat)} (h : call handle callId args results t = .ok rows t') :
    ∃ items, t.Gains t' items := by
  obtain ⟨hhandle, hrest⟩ := checks_require.bind (ok_of_get h)
  obtain ⟨-, hrest⟩ := checks_require.bind hrest
  obtain ⟨_, t₁, hopen, hrest⟩ := ok_of_bind hrest
  obtain ⟨_, t₂, hargs, hrest⟩ := ok_of_bind hrest
  obtain ⟨_, t₃, hresults, hrest⟩ := ok_of_bind hrest
  obtain ⟨_, _, hclose, ⟨⟩⟩ := ok_of_bind hrest
  have h₁ := ok_of_append hopen
  obtain ⟨argInstrs, h₂, hargCount, -, hargs⟩ := extends_callArgs hargs
  obtain ⟨resultInstrs, h₃, hresultCount, hresults⟩ := extends_callResults hresults
  have h₄ := ok_of_append hclose
  let header := [handle, callId, Index.toArg args.length, Index.toArg results.length]
  let block : Block :=
    { opening := ⟨.callMarker, header, t.rows - 1⟩
      args := argInstrs
      results := resultInstrs
      closing := ⟨.callMarker, header, t₃.rows - 1⟩ }
  have hblock : t.Extends t' block.instrs := ((h₁.trans h₂).trans h₃).trans h₄
  have hrows : t₁.rows = t.rows := h₁.rows
  refine ⟨[.call block], ⟨by simpa [Item.instrs] using hblock, fun hpos => ⟨?_, trivial⟩⟩⟩
  constructor
  · rfl
  · rfl
  · exact ⟨handle, callId, Nat.lt_of_lt_of_le hhandle hblock.registry,
      by simp only [block, header, hargCount, hresultCount]⟩
  · rfl
  · intro ins hins
    obtain ⟨a, ha, hop, hargs⟩ := hargs ins hins
    rw [hrows] at ha
    exact ⟨a, ha.mono (Nat.le_refl _) (h₃.trans h₄).params, hop, hargs⟩
  · intro ins hins
    rcases hresults ins hins with hvar | ⟨i, hi, hpar⟩
    · exact Or.inl hvar
    · exact Or.inr ⟨i, Nat.lt_of_lt_of_le hi h₄.params, hpar⟩
  · exact hblock.placed hpos

/-- Steps that declare no independents, call no operator and do not finish the tape append
instructions outside call blocks. -/
theorem gains_record [Scalar F] {action : Action F} {u : Unit} (h : action.record t = .ok u t')
    (hindependents : ∀ n, action ≠ .independents n)
    (hcall : ∀ handle callId args results, action ≠ .call handle callId args results)
    (hfinish : action ≠ .finish) : t.GainsPlain t' := by
  cases action with
  | independents n => exact absurd rfl (hindependents n)
  | call handle callId args results => exact absurd rfl (hcall handle callId args results)
  | finish => exact absurd rfl hfinish
  | parameter value =>
    obtain ⟨_, _, h, ⟨⟩⟩ := ok_of_bind h
    exact (ok_of_parameter h).1.gainsPlain
  | operation op args =>
    obtain ⟨_, _, h, ⟨⟩⟩ := ok_of_bind h
    exact gains_operation h
  | constant p =>
    obtain ⟨_, _, h, ⟨⟩⟩ := ok_of_bind h
    exact gains_constant h
  | erf x =>
    obtain ⟨_, _, h, ⟨⟩⟩ := ok_of_bind h
    exact gains_erf h
  | discrete f x =>
    obtain ⟨_, _, h, ⟨⟩⟩ := ok_of_bind h
    exact gains_discrete h
  | choose r left right ifTrue ifFalse =>
    obtain ⟨_, _, h, ⟨⟩⟩ := ok_of_bind h
    exact gains_choose h
  | sum p added subtracted =>
    obtain ⟨_, _, h, ⟨⟩⟩ := ok_of_bind h
    exact gains_sum h
  | skip r left right ifTrue ifFalse => exact gains_skip h
  | load offset index =>
    obtain ⟨_, _, h, ⟨⟩⟩ := ok_of_bind h
    exact gains_load h
  | store offset index value => exact gains_store h
  | compare op left right => exact gains_compare h
  | print position before value after => exact gains_print h
  | register operator =>
    obtain ⟨_, _, h, ⟨⟩⟩ := ok_of_bind h
    exact gains_register h

end Recorder

end JetTape
