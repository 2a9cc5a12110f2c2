import JetTape.Proofs.Tape.Growth

/-!
What recording steps leave that end in faults. Checks and steps on the tables beside the
instructions append nothing. Most of the steps that append instructions do so last, so a fault comes
before anything has been appended.
-/
namespace JetTape

variable {F : Type}

namespace Recorder

variable {α β : Type} {m : Recorder F α} {k : α → Recorder F β} {t t' : Tape F}

/-- A step that appends nothing, whether it comes out well or ends in a fault. -/
def Quiet (m : Recorder F α) : Prop := ∀ t : Tape F, t.Extends (left m t) []

theorem Quiet.bind (hm : Quiet m) (hk : ∀ a, Quiet (k a)) : Quiet (m >>= k) :=
  fun t => left_bind (R := fun t t' => t.Extends t' []) (fun _ _ _ h h' => h.trans h') (hm t)
    fun a s _ _ => hk a s

theorem quiet_pure (a : α) : Quiet (pure a : Recorder F α) := fun t => .refl t

theorem quiet_get : Quiet (get : Recorder F (Tape F)) := fun t => .refl t

theorem quiet_throw (f : Fault) : Quiet (throw f : Recorder F α) := fun t => .refl t

theorem left_lift (x : Except Fault α) (t : Tape F) : left (liftM x : Recorder F α) t = t := by
  cases x <;> rfl

theorem quiet_lift (x : Except Fault α) : Quiet (liftM x : Recorder F α) := by
  intro t
  rw [left_lift]
  exact .refl t

theorem quiet_var (x : Nat) : Quiet (checkVar x : Recorder F Unit) :=
  quiet_get.bind fun _ => quiet_lift _

theorem quiet_par (i : Nat) : Quiet (checkPar i : Recorder F Unit) :=
  quiet_get.bind fun _ => quiet_lift _

theorem quiet_index (s : Source) (i : Nat) : Quiet (checkIndex s i : Recorder F Unit) := by
  cases s with
  | var => exact quiet_var i
  | par => exact quiet_par i

theorem quiet_operand (a : Operand) : Quiet (checkOperand a : Recorder F Unit) := quiet_index _ _

theorem quiet_forM {check : α → Recorder F Unit} (hcheck : ∀ a, Quiet (check a)) (l : List α) :
    Quiet (l.forM check) := by
  induction l with
  | nil => exact quiet_pure ()
  | cons a l ih => exact (hcheck a).bind fun _ => ih

theorem quiet_parameter (value : F) : Quiet (parameter value) := by
  refine quiet_get.bind fun _ => (quiet_lift _).bind fun _ => .bind ?_ fun _ => quiet_pure _
  exact fun t => Tape.extends_of_tables (by simp) (Nat.le_refl _) (Nat.le_refl _)

theorem quiet_register (operator : Operator F) : Quiet (register operator) := by
  refine quiet_get.bind fun _ => (quiet_lift _).bind fun _ => .bind ?_ fun _ => quiet_pure _
  exact fun t => Tape.extends_of_tables (Nat.le_refl _) (Nat.le_refl _) (by simp)

/-- A step that appends nothing if it ends in a fault. -/
def Clean (m : Recorder F α) : Prop := ∀ (t : Tape F) f t', m t = .error f t' → t.Extends t' []

theorem Quiet.clean (hm : Quiet m) : Clean m := by
  intro t f t' h
  have hleft := hm t
  rwa [left_of_error h] at hleft

/-- Where nothing has been appended yet, it matters what the rest does. -/
theorem Quiet.clean_bind (hm : Quiet m) (hk : ∀ a, Clean (k a)) : Clean (m >>= k) := by
  intro t f t' h
  have hleft := hm t
  change EStateM.bind m k t = _ at h
  rw [EStateM.bind] at h
  cases hrun : m t with
  | ok a s =>
    rw [hrun] at h
    rw [left_of_ok hrun] at hleft
    exact hleft.trans (hk a s f t' h)
  | error f' s =>
    rw [hrun] at h
    cases h
    rwa [left_of_error hrun] at hleft

/-- A fault of a step comes before what follows it if that cannot end in one. -/
theorem Clean.bind_ok (hm : Clean m) (hk : ∀ a s, ∃ b s', k a s = .ok b s') :
    Clean (m >>= k) := by
  intro t f t' h
  change EStateM.bind m k t = _ at h
  rw [EStateM.bind] at h
  cases hrun : m t with
  | ok a s =>
    rw [hrun] at h
    obtain ⟨b, s', hok⟩ := hk a s
    cases hok.symm.trans h
  | error f' s =>
    rw [hrun] at h
    cases h
    exact hm _ _ _ hrun

/-- Faults are the same if the answer is not kept. -/
theorem Clean.void (hm : Clean m) : Clean (do let _ ← m; pure () : Recorder F Unit) :=
  hm.bind_ok fun _ s => ⟨(), s, rfl⟩

theorem clean_append (op : Opcode) (args : List Nat) : Clean (append op args : Recorder F Nat) := by
  refine quiet_get.clean_bind fun _ => (quiet_lift _).clean_bind fun _ => quiet_get.clean_bind
    fun _ => (quiet_lift _).clean.bind_ok ?_
  exact fun _ _ => ⟨_, _, rfl⟩

theorem clean_operation (op : Opcode) (args : List Nat) :
    Clean (operation op args : Recorder F Nat) := by
  unfold operation
  cases op.sources? with
  | none => exact (quiet_throw _).clean
  | some sources =>
    exact (quiet_lift _).clean_bind fun _ => (quiet_forM (fun _ => quiet_index _ _) _).clean_bind
      fun _ => clean_append _ _

theorem clean_load (offset : Nat) (index : Operand) :
    Clean (load offset index : Recorder F Nat) := by
  refine (quiet_operand _).clean_bind fun _ => ?_
  intro t f t' h
  change EStateM.bind (liftM (Index.count t.loads 1)) _ t = _ at h
  rw [EStateM.bind] at h
  cases hcount : Index.count t.loads 1 with
  | error f' =>
    rw [hcount] at h
    cases h
    exact .refl t
  | ok loads =>
    rw [hcount] at h
    obtain ⟨-, hloads⟩ := Index.count_eq_ok_iff.mp hcount
    have hslot : t.Extends { t with loads } [] :=
      Tape.extends_of_tables (Nat.le_refl _) (by omega) (Nat.le_refl _)
    exact hslot.trans (clean_append _ _ _ _ _ h)

theorem clean_compare (op : Opcode) (left right : Nat) :
    Clean (compare op left right : Recorder F Unit) := by
  cases op with
  | compare f =>
    exact (quiet_index _ _).clean_bind fun _ => (quiet_index _ _).clean_bind
      fun _ => (clean_append _ _).void
  | _ => exact (quiet_throw _).clean

/-- Steps that declare no independents and call no operator append nothing if they end in a
fault. -/
theorem clean_record [Scalar F] (action : Action F) (hindependents : ∀ n, action ≠ .independents n)
    (hcall : ∀ handle callId args results, action ≠ .call handle callId args results) :
    Clean action.record := by
  cases action with
  | independents n => exact absurd rfl (hindependents n)
  | call handle callId args results => exact absurd rfl (hcall handle callId args results)
  | parameter value => exact (quiet_parameter value).clean.void
  | operation op args => exact (clean_operation op args).void
  | constant p => exact ((quiet_par p).clean_bind fun _ => clean_append _ _).void
  | erf x =>
    exact ((quiet_var x).clean_bind fun _ => (quiet_parameter _).clean_bind
      fun _ => (quiet_parameter _).clean_bind fun _ => clean_append _ _).void
  | discrete f x => exact ((quiet_var x).clean_bind fun _ => clean_append _ _).void
  | choose r left right ifTrue ifFalse =>
    exact ((quiet_operand left).clean_bind fun _ => (quiet_operand right).clean_bind
      fun _ => (quiet_operand ifTrue).clean_bind fun _ => (quiet_operand ifFalse).clean_bind
      fun _ => clean_append _ _).void
  | sum p added subtracted =>
    exact ((quiet_par p).clean_bind fun _ => (quiet_forM quiet_var _).clean_bind
      fun _ => clean_append _ _).void
  | skip r left right ifTrue ifFalse =>
    exact (quiet_operand left).clean_bind fun _ => (quiet_operand right).clean_bind
      fun _ => (clean_append _ _).void
  | load offset index => exact (clean_load offset index).void
  | store offset index value =>
    exact (quiet_operand index).clean_bind fun _ => (quiet_operand value).clean_bind
      fun _ => (clean_append _ _).void
  | compare op left right => exact clean_compare op left right
  | print position before value after =>
    exact (quiet_operand position).clean_bind fun _ => (quiet_operand value).clean_bind
      fun _ => (clean_append _ _).void
  | register operator => exact (quiet_register operator).clean.void
  | finish => exact (clean_append _ _).void

end Recorder

end JetTape
