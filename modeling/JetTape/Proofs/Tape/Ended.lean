import JetTape.Proofs.Tape.Rejection

/-!
Steps on a stopped tape. No instruction is appended to it any more. Parameters and operators are
still added behind those that are there, also by a step that ends in a fault, and each load of an
operand that is there takes another slot.
-/
namespace JetTape

variable {F : Type}

namespace Tape

/-- The tape `t'` is `t` with parameters, operators and `n` load slots added. -/
def Augments (t : Tape F) (n : Nat) (t' : Tape F) : Prop :=
  ∃ params operators, t' = { t with
    params := t.params ++ params
    loads := t.loads + n
    registry := t.registry ++ operators }

variable {t t' t'' : Tape F} {n n' : Nat}

theorem Augments.refl (t : Tape F) : t.Augments 0 t := ⟨#[], #[], by simp⟩

theorem Augments.trans (h : t.Augments n t') (h' : t'.Augments n' t'') :
    t.Augments (n + n') t'' := by
  obtain ⟨params, operators, rfl⟩ := h
  obtain ⟨params', operators', rfl⟩ := h'
  exact ⟨params ++ params', operators ++ operators', by
    simp [Array.append_assoc, Nat.add_assoc]⟩

/-- A tape that is stopped behind more than its independents. -/
structure Ended (t : Tape F) : Prop where
  stopped : t.isStopped = true
  late : t.ops.size ≠ 1 + t.independents

theorem Augments.ended (h : t.Augments n t') (ht : t.Ended) : t'.Ended := by
  obtain ⟨params, operators, rfl⟩ := h
  exact ⟨ht.stopped, ht.late⟩

/-- A tape that contains its `stop` is ended. -/
theorem Contains.ended {body tail : List Instr} (h : t.Contains body tail)
    (hstopped : t.isStopped = true) : t.Ended where
  stopped := hstopped
  late hsize := h.isStopped_iff.mp hstopped (h.eq_nil hsize).2

end Tape

namespace Recorder

open Tape (Augments Ended)

variable {α β : Type} {m : Recorder F α} {k : α → Recorder F β} {t : Tape F}

/-- A step that adds no more than parameters and operators to an ended tape. -/
def Idle (m : Recorder F α) : Prop := ∀ t : Tape F, t.Ended → t.Augments 0 (left m t)

theorem Idle.bind (hm : Idle m) (hk : ∀ a, Idle (k a)) : Idle (m >>= k) := fun t =>
  left_bind (R := fun t t' => t.Ended → t.Augments 0 t')
    (fun _ _ _ h h' ht => (h ht).trans (h' ((h ht).ended ht))) (hm t) fun a s _ _ => hk a s

theorem idle_of_stays (hm : ∀ t, left m t = t) : Idle m := by
  intro t _
  rw [hm t]
  exact .refl t

theorem Idle.void (hm : Idle m) : Idle (do let _ ← m; pure () : Recorder F Unit) :=
  hm.bind fun _ => idle_of_stays fun _ => rfl

theorem left_append_of_stopped (hstopped : t.isStopped = true) (op : Opcode) (args : List Nat) :
    left (append op args) t = t := by
  apply left_of_error (f := .stopped)
  exact (bind_of_ok rfl).trans (bind_of_error (require_of_not (by simp [hstopped]) _ t))

theorem idle_append (op : Opcode) (args : List Nat) : Idle (append op args : Recorder F Nat) := by
  intro t ht
  rw [left_append_of_stopped ht.stopped]
  exact .refl t

theorem left_modify (g : Tape F → Tape F) (t : Tape F) :
    left (modify g : Recorder F PUnit) t = g t := rfl

theorem idle_parameter (value : F) : Idle (parameter value) :=
  (idle_of_stays fun _ => rfl).bind fun _ => (idle_of_stays (left_lift _)).bind fun _ =>
    .bind (fun t _ => ⟨#[value], #[], by simp [left_modify]⟩)
      fun _ => idle_of_stays fun _ => rfl

theorem idle_register (operator : Operator F) : Idle (register operator) :=
  (idle_of_stays fun _ => rfl).bind fun _ => (idle_of_stays (left_lift _)).bind fun _ =>
    .bind (fun t _ => ⟨#[], #[operator], by simp [left_modify]⟩)
      fun _ => idle_of_stays fun _ => rfl

theorem idle_operation (op : Opcode) (args : List Nat) :
    Idle (operation op args : Recorder F Nat) := by
  unfold operation
  cases op.sources? with
  | none => exact idle_of_stays fun _ => rfl
  | some sources =>
    exact (idle_of_stays (left_lift _)).bind fun _ =>
      (idle_of_stays (left_forM (fun a : Source × Nat => left_index a.1 a.2) _)).bind fun _ =>
        idle_append _ _

theorem idle_compare (op : Opcode) (left right : Nat) :
    Idle (compare op left right : Recorder F Unit) := by
  cases op with
  | compare f =>
    exact (idle_of_stays (left_index _ _)).bind fun _ => (idle_of_stays (left_index _ _)).bind
      fun _ => (idle_append _ _).void
  | _ => exact idle_of_stays fun _ => rfl

theorem idle_forM {step : α → Recorder F Unit} (hstep : ∀ a, Idle (step a)) (l : List α) :
    Idle (l.forM step) := by
  induction l with
  | nil => exact idle_of_stays fun _ => rfl
  | cons a l ih => exact (hstep a).bind fun _ => ih

theorem idle_mapM {step : α → Recorder F β} (hstep : ∀ a, Idle (step a)) (l : List α) :
    Idle (l.mapM step) := by
  induction l with
  | nil => exact idle_of_stays fun _ => rfl
  | cons a l ih =>
    rw [List.mapM_cons]
    exact (hstep a).bind fun _ => ih.bind fun _ => idle_of_stays fun _ => rfl

theorem idle_callArg (a : Operand) : Idle (callArg a : Recorder F Unit) :=
  (idle_of_stays (left_operand a)).bind fun _ => (idle_append _ _).void

theorem idle_callResult (r : CallResult F) : Idle (callResult r) := by
  cases r with
  | var => exact (idle_append _ _).bind fun _ => idle_of_stays fun _ => rfl
  | constant value =>
    exact (idle_parameter value).bind fun _ => (idle_append _ _).bind fun _ =>
      idle_of_stays fun _ => rfl

theorem idle_call (handle callId : Nat) (args : List Operand) (results : List (CallResult F)) :
    Idle (call handle callId args results) :=
  (idle_of_stays fun _ => rfl).bind fun _ => (idle_of_stays (left_lift _)).bind fun _ =>
    (idle_of_stays (left_lift _)).bind fun _ => (idle_append _ _).bind fun _ =>
      (idle_forM idle_callArg args).bind fun _ => (idle_mapM idle_callResult results).bind fun _ =>
        (idle_append _ _).bind fun _ => idle_of_stays fun _ => rfl

/-- Independents come too late on an ended tape. -/
theorem idle_independents (n : Nat) : Idle (independents n : Recorder F (Array Nat)) := by
  intro t ht
  rw [left_independents_of_late n ht.late]
  exact .refl t

/-- Every step is idle on an ended tape but a load, which takes its slot first. -/
theorem idle_record [Scalar F] (action : Action F)
    (hload : ∀ offset index, action ≠ .load offset index) : Idle action.record := by
  cases action with
  | independents n => exact (idle_independents n).void
  | parameter value => exact (idle_parameter value).void
  | operation op args => exact (idle_operation op args).void
  | constant p => exact ((idle_of_stays (left_par p)).bind fun _ => idle_append _ _).void
  | erf x =>
    exact ((idle_of_stays (left_var x)).bind fun _ => (idle_parameter _).bind fun _ =>
      (idle_parameter _).bind fun _ => idle_append _ _).void
  | discrete function x =>
    exact ((idle_of_stays (left_var x)).bind fun _ => idle_append _ _).void
  | choose r left right ifTrue ifFalse =>
    exact ((idle_of_stays (left_operand left)).bind fun _ =>
      (idle_of_stays (left_operand right)).bind fun _ =>
      (idle_of_stays (left_operand ifTrue)).bind fun _ =>
      (idle_of_stays (left_operand ifFalse)).bind fun _ => idle_append _ _).void
  | sum p added subtracted =>
    exact ((idle_of_stays (left_par p)).bind fun _ =>
      (idle_of_stays (left_forM left_var _)).bind fun _ => idle_append _ _).void
  | skip r left right ifTrue ifFalse =>
    exact (idle_of_stays (left_operand left)).bind fun _ =>
      (idle_of_stays (left_operand right)).bind fun _ => (idle_append _ _).void
  | load offset index => exact absurd rfl (hload offset index)
  | store offset index value =>
    exact (idle_of_stays (left_operand index)).bind fun _ =>
      (idle_of_stays (left_operand value)).bind fun _ => (idle_append _ _).void
  | compare op left right => exact idle_compare op left right
  | print position before value after =>
    exact (idle_of_stays (left_operand position)).bind fun _ =>
      (idle_of_stays (left_operand value)).bind fun _ => (idle_append _ _).void
  | register operator => exact (idle_register operator).void
  | call handle callId args results => exact (idle_call handle callId args results).void
  | finish => exact (idle_append _ _).void

/-- The step is a load that takes a slot: its operand is there, and the slots can be counted. -/
def Action.TakesSlot (t : Tape F) : Action F → Prop
  | .load _ index => index.Valid t.rows t.params.size ∧ t.loads + 1 < Index.argBound
  | _ => False

instance (t : Tape F) : (action : Action F) → Decidable (action.TakesSlot t)
  | .load _ index =>
    inferInstanceAs (Decidable (index.Valid t.rows t.params.size ∧ t.loads + 1 < Index.argBound))
  | .independents _ | .parameter _ | .operation .. | .constant _ | .erf _ | .discrete ..
  | .choose .. | .sum .. | .skip .. | .store .. | .compare .. | .print .. | .register _ | .call ..
  | .finish =>
    inferInstanceAs (Decidable False)

/-- A load leaves its slot behind although it is not recorded. -/
theorem left_load (ht : t.isStopped = true) (offset : Nat) (index : Operand) :
    left (load offset index) t =
      if index.Valid t.rows t.params.size ∧ t.loads + 1 < Index.argBound
        then { t with loads := t.loads + 1 } else t := by
  by_cases hvalid : index.Valid t.rows t.params.size
  · have hchecked : load offset index t = (do
        let loads ← Index.count t.loads 1
        modify ({ · with loads := loads })
        append (.load index.source) [offset, index.index, t.loads] : Recorder F Nat) t :=
      bind_of_ok (checkOperand_of_valid hvalid)
    by_cases hroom : t.loads + 1 < Index.argBound
    · have hcounted : load offset index t = append (.load index.source)
          [offset, index.index, t.loads] { t with loads := t.loads + 1 } := by
        rw [hchecked, Index.count_eq_ok_iff.mpr ⟨hroom, rfl⟩]
        rfl
      rw [if_pos ⟨hvalid, hroom⟩, left, hcounted]
      exact left_append_of_stopped (t := { t with loads := t.loads + 1 }) ht _ _
    · rw [if_neg fun h => hroom h.2]
      apply left_of_error (f := .addOverflow)
      rw [hchecked, Index.count, if_neg hroom]
      rfl
  · rw [if_neg fun h => hvalid h.1]
    apply left_of_error (f := missing t index)
    exact bind_of_error (checkOperand_of_missing hvalid)

/-- What one step does to an ended tape. -/
theorem augments_record [Scalar F] (ht : t.Ended) (action : Action F) :
    t.Augments (if action.TakesSlot t then 1 else 0) (left action.record t) := by
  by_cases hload : ∃ offset index, action = .load offset index
  · obtain ⟨offset, index, rfl⟩ := hload
    have hvoid : left (Action.load offset index).record t = left (load offset index) t :=
      left_void _ t
    rw [hvoid, left_load ht.stopped]
    by_cases htakes : index.Valid t.rows t.params.size ∧ t.loads + 1 < Index.argBound
    · rw [if_pos htakes, if_pos (show (Action.load offset index).TakesSlot t from htakes)]
      exact ⟨#[], #[], by simp⟩
    · rw [if_neg htakes, if_neg (show ¬ (Action.load offset index).TakesSlot t from htakes)]
      exact .refl t
  · simp only [not_exists] at hload
    have hnone : ¬ action.TakesSlot t := by
      cases action with
      | load offset index => exact absurd rfl (hload offset index)
      | _ => exact id
    rw [if_neg hnone]
    exact idle_record action hload t ht

end Recorder

namespace Tape

open Recorder (Action left)

variable [Scalar F] {t : Tape F}

/-- The tape that further steps leave, whether or not they end in faults. -/
def attempt (t : Tape F) (actions : List (Action F)) : Tape F :=
  actions.foldl (fun t action => left action.record t) t

/-- How many of the steps are loads that take a slot. -/
def slotsTaken (t : Tape F) : List (Action F) → Nat
  | [] => 0
  | action :: actions =>
    (if action.TakesSlot t then 1 else 0) + (left action.record t).slotsTaken actions

/-- What any number of steps does to an ended tape. -/
theorem Ended.augments (ht : t.Ended) (actions : List (Action F)) :
    t.Augments (t.slotsTaken actions) (t.attempt actions) := by
  induction actions generalizing t with
  | nil => exact .refl t
  | cons action actions ih =>
    have hstep := Recorder.augments_record ht action
    exact hstep.trans (ih (hstep.ended ht))

end Tape

end JetTape
