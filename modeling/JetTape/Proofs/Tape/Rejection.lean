import JetTape.Proofs.Tape.Invariant
import JetTape.Proofs.Tape.Storable
import JetTape.Tape.Sweep

/-!
Rejected steps. A step on a wrong operand, operation, handle or count leaves the tape as it was, so
that recording goes on as if it had not been tried. The one exception is a call of an operator that
is there: it looks at its arguments one by one while it appends them, and breaks off at the first
that is not there, behind its opening marker and the arguments before.
-/
namespace JetTape

variable {F : Type}

/-- The step has been refused for what it was given. The other faults tell of a stopped tape or of a
table that is full. -/
def Fault.isRejection : Fault → Bool
  | .lateIndependent .. | .roomExceeded | .dedicatedMethod .. | .operandCount .. | .notComparison ..
  | .variablePastEnd .. | .parameterPastEnd .. | .unregistered .. | .callIdTooLarge .. => true
  | _ => false

instance (n p : Nat) : (a : Operand) → Decidable (a.Valid n p)
  | .var x => inferInstanceAs (Decidable (0 < x ∧ x < n))
  | .par i => inferInstanceAs (Decidable (i < p))

namespace Recorder

variable {α β : Type} {m : Recorder F α} {k : α → Recorder F β} {t t' : Tape F} {f : Fault}

theorem bind_of_ok {a : α} (h : m t = .ok a t') : (m >>= k) t = k a t' := by
  show EStateM.bind m k t = _
  rw [EStateM.bind, h]

theorem bind_of_error (h : m t = .error f t') : (m >>= k) t = .error f t' := by
  show EStateM.bind m k t = _
  rw [EStateM.bind, h]

theorem require_of {p : Prop} [Decidable p] (h : p) (f : Fault) (t : Tape F) :
    (liftM (require p f) : Recorder F Unit) t = .ok () t := by
  rw [require, if_pos h]
  rfl

theorem require_of_not {p : Prop} [Decidable p] (h : ¬ p) (f : Fault) (t : Tape F) :
    (liftM (require p f) : Recorder F Unit) t = .error f t := by
  rw [require, if_neg h]
  rfl

/-- A fault of a sequence comes from its first part or from its second. -/
theorem error_of_bind (h : (m >>= k) t = .error f t') :
    m t = .error f t' ∨ ∃ a s, m t = .ok a s ∧ k a s = .error f t' := by
  change EStateM.bind m k t = _ at h
  rw [EStateM.bind] at h
  cases hm : m t with
  | ok a s =>
    rw [hm] at h
    exact Or.inr ⟨a, s, rfl, h⟩
  | error g s =>
    rw [hm] at h
    cases h
    exact Or.inl rfl

/-- A step that is never rejected. -/
def Tame (m : Recorder F α) : Prop :=
  ∀ (t : Tape F) f t', m t = .error f t' → f.isRejection = false

theorem Tame.bind (hm : Tame m) (hk : ∀ a, Tame (k a)) : Tame (m >>= k) := by
  intro t f t' h
  rcases error_of_bind h with h | ⟨a, s, -, h⟩
  · exact hm t f t' h
  · exact hk a s f t' h

theorem tame_pure (a : α) : Tame (pure a : Recorder F α) := fun _ _ _ h => nomatch h

theorem tame_get : Tame (get : Recorder F (Tape F)) := fun _ _ _ h => nomatch h

theorem tame_modify (g : Tape F → Tape F) : Tame (modify g : Recorder F PUnit) :=
  fun _ _ _ h => nomatch h

theorem tame_lift {x : Except Fault α} (hx : ∀ f, x = .error f → f.isRejection = false) :
    Tame (liftM x : Recorder F α) := by
  intro t f t' h
  cases x with
  | ok a => cases h
  | error g =>
    cases h
    exact hx _ rfl

theorem tame_require {p : Prop} [Decidable p] (hf : f.isRejection = false) :
    Tame (liftM (require p f) : Recorder F Unit) := by
  apply tame_lift
  intro g hg
  unfold require at hg
  split at hg <;> cases hg
  exact hf

theorem tame_count (a b : Nat) : Tame (liftM (Index.count a b) : Recorder F Nat) := by
  apply tame_lift
  intro g hg
  unfold Index.count at hg
  split at hg <;> cases hg
  rfl

theorem tame_append (op : Opcode) (args : List Nat) : Tame (append op args : Recorder F Nat) :=
  tame_get.bind fun _ => (tame_require rfl).bind fun _ => tame_get.bind fun _ =>
    (tame_count _ _).bind fun _ => (tame_modify _).bind fun _ => tame_pure _

theorem tame_parameter (value : F) : Tame (parameter value) :=
  tame_get.bind fun _ => (tame_require rfl).bind fun _ => (tame_modify _).bind fun _ => tame_pure _

theorem tame_independent : Tame (independent : Recorder F Nat) :=
  tame_get.bind fun _ => (tame_count _ _).bind fun _ => (tame_modify _).bind fun _ =>
    tame_append _ _

theorem tame_collect (n i : Nat) (found : Array Nat) :
    Tame (Loop.fold n i (fun acc _ => return acc.push (← independent)) found :
      Recorder F (Array Nat)) := by
  induction n generalizing i found with
  | zero => exact tame_pure _
  | succ n ih => exact (tame_independent.bind fun _ => tame_pure _).bind fun _ => ih _ _

theorem tame_callResult (r : CallResult F) : Tame (callResult r) := by
  cases r with
  | var => exact (tame_append _ _).bind fun _ => tame_pure _
  | constant value =>
    exact (tame_parameter value).bind fun _ => (tame_append _ _).bind fun _ => tame_pure _

theorem tame_mapM {step : α → Recorder F β} (hstep : ∀ a, Tame (step a)) (l : List α) :
    Tame (l.mapM step) := by
  induction l with
  | nil => exact tame_pure _
  | cons a l ih =>
    rw [List.mapM_cons]
    exact (hstep a).bind fun _ => ih.bind fun _ => tame_pure _

/-- A step that leaves the tape as it was if it is rejected. -/
def Neat (m : Recorder F α) : Prop :=
  ∀ (t : Tape F) f t', m t = .error f t' → f.isRejection = true → t' = t

theorem Tame.neat (hm : Tame m) : Neat m := by
  intro t f t' h hf
  rw [hm t f t' h] at hf
  cases hf

/-- A step that never changes the tape. -/
theorem neat_of_stays (hm : ∀ t, left m t = t) : Neat m := by
  intro t f t' h _
  rw [← hm t, left_of_error h]

/-- After steps that have not changed the tape it matters what the rest does. -/
theorem Neat.bind (hk : ∀ a, Neat (k a)) (hm : ∀ t, left m t = t) : Neat (m >>= k) := by
  intro t f t' h hf
  rcases error_of_bind h with h | ⟨a, s, hs, h⟩
  · exact neat_of_stays hm t f t' h hf
  · rw [← hm t, left_of_ok hs]
    exact hk a s f t' h hf

theorem Neat.bind_tame (hm : Neat m) (hk : ∀ a, Tame (k a)) : Neat (m >>= k) := by
  intro t f t' h hf
  rcases error_of_bind h with h | ⟨a, s, -, h⟩
  · exact hm t f t' h hf
  · rw [hk a s f t' h] at hf
    cases hf

theorem Neat.void (hm : Neat m) : Neat (do let _ ← m; pure () : Recorder F Unit) :=
  hm.bind_tame fun _ => tame_pure _

theorem neat_append (op : Opcode) (args : List Nat) : Neat (append op args : Recorder F Nat) :=
  (tame_append op args).neat

theorem neat_independents (n : Nat) : Neat (independents n : Recorder F (Array Nat)) :=
  .bind (fun _ => .bind (fun _ => .bind (fun _ => (tame_collect n 0 #[]).neat) (left_lift _))
    (left_lift _)) fun _ => rfl

theorem neat_operation (op : Opcode) (args : List Nat) :
    Neat (operation op args : Recorder F Nat) := by
  unfold operation
  cases op.sources? with
  | none => exact neat_of_stays fun _ => rfl
  | some sources =>
    exact .bind (fun _ => .bind (fun _ => neat_append _ _)
      (left_forM (fun a : Source × Nat => left_index a.1 a.2) _)) (left_lift _)

theorem neat_load (offset : Nat) (index : Operand) : Neat (load offset index : Recorder F Nat) :=
  .bind (fun _ => (tame_get.bind fun _ => (tame_count _ _).bind fun _ =>
    (tame_modify _).bind fun _ => tame_append _ _).neat) (left_operand index)

theorem neat_compare (op : Opcode) (left right : Nat) :
    Neat (compare op left right : Recorder F Unit) := by
  cases op with
  | compare f =>
    exact .bind (fun _ => .bind (fun _ => (neat_append _ _).void) (left_index _ _)) (left_index _ _)
  | _ => exact neat_of_stays fun _ => rfl

/-- Steps check what they are given before they change anything. Calls do not. -/
theorem neat_record [Scalar F] (action : Action F)
    (hcall : ∀ handle callId args results, action ≠ .call handle callId args results) :
    Neat action.record := by
  cases action with
  | independents n => exact (neat_independents n).void
  | parameter value => exact (tame_parameter value).neat.void
  | operation op args => exact (neat_operation op args).void
  | constant p => exact (Neat.bind (fun _ => neat_append _ _) (left_par p)).void
  | erf x =>
    exact (Neat.bind (fun _ => ((tame_parameter _).bind fun _ => (tame_parameter _).bind fun _ =>
      tame_append _ _).neat) (left_var x)).void
  | discrete function x => exact (Neat.bind (fun _ => neat_append _ _) (left_var x)).void
  | choose r left right ifTrue ifFalse =>
    exact (Neat.bind (fun _ => .bind (fun _ => .bind (fun _ => .bind (fun _ => neat_append _ _)
      (left_operand ifFalse)) (left_operand ifTrue)) (left_operand right)) (left_operand left)).void
  | sum p added subtracted =>
    exact (Neat.bind (fun _ => .bind (fun _ => neat_append _ _) (left_forM left_var _))
      (left_par p)).void
  | skip r left right ifTrue ifFalse =>
    exact .bind (fun _ => .bind (fun _ => (neat_append _ _).void) (left_operand right))
      (left_operand left)
  | load offset index => exact (neat_load offset index).void
  | store offset index value =>
    exact .bind (fun _ => .bind (fun _ => (neat_append _ _).void) (left_operand value))
      (left_operand index)
  | compare op left right => exact neat_compare op left right
  | print position before value after =>
    exact .bind (fun _ => .bind (fun _ => (neat_append _ _).void) (left_operand value))
      (left_operand position)
  | register operator =>
    exact (tame_get.bind fun _ => (tame_require rfl).bind fun _ => (tame_modify _).bind fun _ =>
      tame_pure _).neat.void
  | call handle callId args results => exact absurd rfl (hcall handle callId args results)
  | finish => exact (neat_append _ _).void

/-- The fault of an operand that is not there. -/
def missing (t : Tape F) : Operand → Fault
  | .var x => .variablePastEnd x t.rows
  | .par i => .parameterPastEnd i

theorem checkOperand_of_valid {a : Operand} (ha : a.Valid t.rows t.params.size) :
    checkOperand a t = .ok () t := by
  cases a with
  | var x => exact (bind_of_ok rfl).trans (require_of ha _ t)
  | par i => exact (bind_of_ok rfl).trans (require_of ha _ t)

theorem checkOperand_of_missing {a : Operand} (ha : ¬ a.Valid t.rows t.params.size) :
    checkOperand a t = .error (missing t a) t := by
  cases a with
  | var x => exact (bind_of_ok rfl).trans (require_of_not ha _ t)
  | par i => exact (bind_of_ok rfl).trans (require_of_not ha _ t)

end Recorder

namespace Tape

/-- The tape with the arguments of a call appended. -/
def passArgs (t : Tape F) (args : List Operand) : Tape F :=
  args.foldl (fun t a => t.append (.callArg a.source) [a.index] t.rows) t

/-- The tape with a call opened by its marker. -/
def openCall (t : Tape F) (handle callId : Nat) (args : List Operand)
    (results : List (CallResult F)) : Tape F :=
  t.append .callMarker [handle, callId, Index.toArg args.length, Index.toArg results.length] t.rows

end Tape

namespace Recorder

variable {t t' : Tape F} {f : Fault} {handle callId : Nat} {args : List Operand}
variable {results : List (CallResult F)}

theorem callArg_of_valid (hrun : t.isStopped = false) (hb : t.rows < Index.argBound) {a : Operand}
    (ha : a.Valid t.rows t.params.size) :
    callArg a t = .ok () (t.append (.callArg a.source) [a.index] t.rows) := by
  have happend : append (.callArg a.source) [a.index] t = _ := append_eq_ok [a.index] hrun hb
  exact (bind_of_ok (checkOperand_of_valid ha)).trans (bind_of_ok happend)

/-- The arguments of a call are appended up to the first that is not there. -/
theorem forM_callArg (hrun : t.isStopped = false) (hb : t.rows < Index.argBound)
    (args : List Operand) :
    args.forM callArg t = match args.find? fun a => ¬ a.Valid t.rows t.params.size with
      | none => .ok () (t.passArgs args)
      | some a => .error (missing t a)
          (t.passArgs (args.takeWhile fun a => a.Valid t.rows t.params.size)) := by
  induction args generalizing t with
  | nil => rfl
  | cons a args ih =>
    by_cases ha : a.Valid t.rows t.params.size
    · rw [List.find?_cons_of_neg (by simpa using ha),
        List.takeWhile_cons_of_pos (by simpa using ha)]
      exact (bind_of_ok (callArg_of_valid hrun hb ha)).trans
        (ih (t := t.append (.callArg a.source) [a.index] t.rows) (by simp) hb)
    · rw [List.find?_cons_of_pos (by simpa using ha),
        List.takeWhile_cons_of_neg (by simpa using ha)]
      exact bind_of_error (bind_of_error (checkOperand_of_missing ha))

/-- A call of an operator that is not there, or with a call id that cannot be stored. -/
theorem call_of_refused (h : ¬ (handle < t.registry.size ∧ callId < Index.argBound)) :
    ∃ f, call handle callId args results t = .error f t := by
  by_cases hhandle : handle < t.registry.size
  · have hcallId : ¬ callId < Index.argBound := fun hlt => h ⟨hhandle, hlt⟩
    exact ⟨.callIdTooLarge callId, (bind_of_ok rfl).trans <|
      (bind_of_ok (require_of hhandle _ t)).trans <| bind_of_error (require_of_not hcallId _ t)⟩
  · exact ⟨.unregistered handle, (bind_of_ok rfl).trans <|
      bind_of_error (require_of_not hhandle _ t)⟩

/-- Where the operator is there and the call id can be stored, a call is opened before its arguments
are looked at. -/
theorem call_apply (hrun : t.isStopped = false) (hb : t.rows < Index.argBound)
    (hhandle : handle < t.registry.size) (hcallId : callId < Index.argBound) :
    call handle callId args results t = (do
      args.forM callArg
      let rows ← results.mapM callResult
      let _ ← append .callMarker
        [handle, callId, Index.toArg args.length, Index.toArg results.length]
      return rows : Recorder F (List (Option Nat))) (t.openCall handle callId args results) := by
  have happend (header : List Nat) : append .callMarker header t = _ := append_eq_ok header hrun hb
  exact (bind_of_ok rfl).trans <| (bind_of_ok (require_of hhandle _ t)).trans <|
    (bind_of_ok (require_of hcallId _ t)).trans <| bind_of_ok (happend _)

/-- The marker changes nothing that its arguments are looked up in. -/
theorem forM_callArg_openCall (hb : t.rows < Index.argBound) :
    args.forM callArg (t.openCall handle callId args results) =
      match args.find? fun a => ¬ a.Valid t.rows t.params.size with
      | none => .ok () ((t.openCall handle callId args results).passArgs args)
      | some a => .error (missing t a) ((t.openCall handle callId args results).passArgs
          (args.takeWhile fun a => a.Valid t.rows t.params.size)) :=
  forM_callArg (t := t.openCall handle callId args results) (by simp [Tape.openCall]) hb args

/-- A call breaks off at the first argument that is not there. -/
theorem call_of_missing (hrun : t.isStopped = false) (hb : t.rows < Index.argBound)
    (hhandle : handle < t.registry.size) (hcallId : callId < Index.argBound) {a : Operand}
    (ha : args.find? (fun a => ¬ a.Valid t.rows t.params.size) = some a) :
    call handle callId args results t = .error (missing t a)
      ((t.openCall handle callId args results).passArgs
        (args.takeWhile fun a => a.Valid t.rows t.params.size)) := by
  rw [call_apply hrun hb hhandle hcallId]
  apply bind_of_error
  rw [forM_callArg_openCall hb, ha]

/-- A call whose arguments are all there is rejected before it is opened or not at all. -/
theorem call_of_all (hrun : t.isStopped = false) (hb : t.rows < Index.argBound)
    (hall : ∀ a ∈ args, a.Valid t.rows t.params.size)
    (h : call handle callId args results t = .error f t') (hf : f.isRejection = true) : t' = t := by
  by_cases hready : handle < t.registry.size ∧ callId < Index.argBound
  · have hnone : args.find? (fun a => ¬ a.Valid t.rows t.params.size) = none := by simpa using hall
    have hargs : args.forM callArg (t.openCall handle callId args results) = _ :=
      forM_callArg_openCall hb
    have htame : Tame (do
        let rows ← results.mapM callResult
        let _ ← append .callMarker
          [handle, callId, Index.toArg args.length, Index.toArg results.length]
        return rows : Recorder F (List (Option Nat))) :=
      (tame_mapM tame_callResult results).bind fun _ => (tame_append _ _).bind fun _ => tame_pure _
    rw [hnone] at hargs
    rw [call_apply hrun hb hready.1 hready.2] at h
    rcases error_of_bind h with h | ⟨_, s, -, h⟩
    · cases hargs.symm.trans h
    · rw [htame s f t' h] at hf
      cases hf
  · obtain ⟨g, hrefused⟩ : ∃ g, call handle callId args results t = .error g t :=
      call_of_refused hready
    cases hrefused.symm.trans h
    rfl

section Rows

/-- The step keeps the number of rows below the bound of a counter. -/
def CountsRows (m : Recorder F α) : Prop :=
  ∀ t : Tape F, t.rows < Index.argBound → (left m t).rows < Index.argBound

variable {α β : Type} {m : Recorder F α} {k : α → Recorder F β}

theorem CountsRows.bind (hm : CountsRows m) (hk : ∀ a, CountsRows (k a)) :
    CountsRows (m >>= k) := fun t =>
  left_bind (R := fun t t' => t.rows < Index.argBound → t'.rows < Index.argBound)
    (fun _ _ _ h h' hb => h' (h hb)) (hm t) fun a s _ _ => hk a s

theorem countsRows_of_stays (hm : ∀ t, left m t = t) : CountsRows m := by
  intro t hb
  rwa [hm t]

theorem countsRows_append (op : Opcode) (args : List Nat) :
    CountsRows (append op args : Recorder F Nat) := by
  intro t hb
  cases hrun : append op args t with
  | ok row t' =>
    rw [left_of_ok hrun]
    exact (ok_of_append hrun).bound hb
  | error f t' =>
    rw [left_of_error hrun]
    exact (clean_append op args t f t' hrun).bound hb

theorem countsRows_independents (n : Nat) :
    CountsRows (independents n : Recorder F (Array Nat)) := by
  have hone : CountsRows (independent : Recorder F Nat) :=
    (countsRows_of_stays fun _ => rfl).bind fun _ => (countsRows_of_stays (left_lift _)).bind
      fun _ => .bind (fun _ hb => hb) fun _ => countsRows_append _ _
  have hloop (n i : Nat) (found : Array Nat) :
      CountsRows (Loop.fold n i (fun acc _ => return acc.push (← independent)) found :
        Recorder F (Array Nat)) := by
    induction n generalizing i found with
    | zero => exact countsRows_of_stays fun _ => rfl
    | succ n ih =>
      exact (hone.bind fun _ => countsRows_of_stays fun _ => rfl).bind fun _ => ih _ _
  exact (countsRows_of_stays fun _ => rfl).bind fun _ => (countsRows_of_stays (left_lift _)).bind
    fun _ => (countsRows_of_stays (left_lift _)).bind fun _ => hloop _ _ _

/-- Rows are counted in 32 bits, whatever is recorded. -/
theorem countsRows_record [Scalar F] (action : Action F) : CountsRows action.record := by
  by_cases hindependents : ∃ n, action = .independents n
  · obtain ⟨n, rfl⟩ := hindependents
    exact (countsRows_independents n).bind fun _ => countsRows_of_stays fun _ => rfl
  by_cases hfinish : action = .finish
  · subst hfinish
    exact (countsRows_append _ _).bind fun _ => countsRows_of_stays fun _ => rfl
  intro t hb
  obtain ⟨l, hl, -⟩ := grows_record (t := t) action (not_exists.mp hindependents) hfinish
  exact hl.bound hb

end Rows

/-- The step is a call of an operator that is there, with an argument that is not. -/
def Action.BreaksOff (t : Tape F) : Action F → Prop
  | .call handle callId args _ => handle < t.registry.size ∧ callId < Index.argBound ∧
      ∃ a ∈ args, ¬ a.Valid t.rows t.params.size
  | _ => False

variable [Scalar F]

/-- A rejected step leaves the tape as it was, unless it is a call that breaks off. -/
theorem record_of_rejection (hrun : t.isStopped = false) (hb : t.rows < Index.argBound)
    {action : Action F} (hwhole : ¬ action.BreaksOff t) (h : action.record t = .error f t')
    (hf : f.isRejection = true) : t' = t := by
  by_cases hcall : ∃ handle callId args results, action = .call handle callId args results
  · obtain ⟨handle, callId, args, results, rfl⟩ := hcall
    rcases error_of_bind h with h | ⟨_, _, -, h⟩
    · by_cases hready : handle < t.registry.size ∧ callId < Index.argBound
      · refine call_of_all hrun hb (fun a ha => ?_) h hf
        by_contra hmissing
        exact hwhole ⟨hready.1, hready.2, a, ha, hmissing⟩
      · obtain ⟨g, hrefused⟩ : ∃ g, call handle callId args results t = .error g t :=
          call_of_refused hready
        cases hrefused.symm.trans h
        rfl
    · cases h
  · simp only [not_exists] at hcall
    exact neat_record action hcall t f t' h hf

/-- What a call that breaks off leaves behind. -/
theorem record_of_breaksOff (hrun : t.isStopped = false) (hb : t.rows < Index.argBound)
    (h : (Action.call handle callId args results).BreaksOff t) :
    ∃ a, args.find? (fun a => ¬ a.Valid t.rows t.params.size) = some a ∧
      (Action.call handle callId args results).record t = .error (missing t a)
        ((t.openCall handle callId args results).passArgs
          (args.takeWhile fun a => a.Valid t.rows t.params.size)) := by
  obtain ⟨hhandle, hcallId, a, ha, hmissing⟩ := h
  have hsome : (args.find? fun a => ¬ a.Valid t.rows t.params.size).isSome = true := by
    rw [List.find?_isSome]
    exact ⟨a, ha, by simpa using hmissing⟩
  obtain ⟨first, hfirst⟩ := Option.isSome_iff_exists.mp hsome
  exact ⟨first, hfirst, bind_of_error (call_of_missing hrun hb hhandle hcallId hfirst)⟩

end Recorder

namespace Tape

open Recorder (Action left)

variable [Scalar F]

theorem rows_ofAttempts_lt (actions : List (Action F)) :
    (ofAttempts actions).rows < Index.argBound := by
  unfold ofAttempts
  have hempty : (empty : Tape F).rows < Index.argBound := by
    show 1 < Index.argBound
    decide
  generalize (empty : Tape F) = t at hempty
  induction actions generalizing t with
  | nil => exact hempty
  | cons action actions ih => exact ih _ (Recorder.countsRows_record action t hempty)

/-- A step that leaves the tape as it was might not have been taken. -/
theorem ofAttempts_append_cons {actions later : List (Action F)} {action : Action F}
    (h : left action.record (ofAttempts actions) = ofAttempts actions) :
    ofAttempts (actions ++ action :: later) = ofAttempts (actions ++ later) := by
  unfold ofAttempts at h ⊢
  rw [List.foldl_append, List.foldl_cons, h, List.foldl_append]

/-- A step that is rejected on a tape that is not stopped leaves it as it was. Recording goes on as
if the step had not been tried, and the tape can be finished. A call of an operator that is there
but for an argument that is not is the exception: its opening marker and the arguments before that
one stay on the tape. -/
theorem record_rejected {actions : List (Action F)} (hrun : (ofAttempts actions).isStopped = false)
    (action : Action F) :
    let t := ofAttempts actions
    (¬ action.BreaksOff t → ∀ f t', action.record t = .error f t' → f.isRejection = true →
      t' = t ∧ (∃ t'', Recorder.finish t' = .ok () t'' ∧ t''.isStopped = true) ∧
        ∀ later, ofAttempts (actions ++ action :: later) = ofAttempts (actions ++ later)) ∧
      ∀ handle callId args results, action = .call handle callId args results →
        action.BreaksOff t →
        ∃ a, args.find? (fun a => ¬ a.Valid t.rows t.params.size) = some a ∧
          action.record t = .error (Recorder.missing t a)
            ((t.openCall handle callId args results).passArgs
              (args.takeWhile fun a => a.Valid t.rows t.params.size)) := by
  intro t
  have hb : t.rows < Index.argBound := rows_ofAttempts_lt actions
  constructor
  · intro hwhole f t' h hf
    obtain rfl : t' = t := Recorder.record_of_rejection hrun hb hwhole h hf
    have hfinish : Recorder.append .stop [] t = _ := Recorder.append_eq_ok [] hrun hb
    exact ⟨rfl, ⟨t.append .stop [] t.rows, Recorder.bind_of_ok hfinish, by simp⟩, fun later =>
      ofAttempts_append_cons (Recorder.left_of_error h)⟩
  · rintro handle callId args results rfl hbreaks
    exact Recorder.record_of_breaksOff hrun hb hbreaks

/-- A variable is declared and an operator registered. -/
def openSession : List (Action ℚ) := [.independents 1, .register ⟨"refuse", fun _ => .refuse⟩]

/-- A sum with an operand that is not there leaves nothing, and a call leaves its first half. -/
theorem openSession_rejected :
    (∀ later, ofAttempts (openSession ++ .operation (.arithmetic .addVV) [1, 9] :: later) =
        ofAttempts (openSession ++ later)) ∧
      ∃ t', (Action.call 0 7 [.var 1, .var 9] [.var]).record (ofAttempts openSession) =
          .error (.variablePastEnd 9 2) t' ∧
        t'.ops = #[.start, .independent, .callMarker, .callArg .var] ∧
        t'.args = #[0, 0, 7, 2, 1, 1] := by
  have hrun : (ofAttempts openSession).isStopped = false := by decide +kernel
  constructor
  · obtain ⟨hrejected, -⟩ := record_rejected hrun (.operation (.arithmetic .addVV) [1, 9])
    exact (hrejected id (.variablePastEnd 9 2) (ofAttempts openSession) rfl rfl).2.2
  · obtain ⟨-, hbroken⟩ := record_rejected hrun (.call 0 7 [.var 1, .var 9] [.var])
    obtain ⟨a, ha, hcall⟩ := hbroken _ _ _ _ rfl ⟨by decide +kernel, by decide, .var 9, by simp, by
      decide +kernel⟩
    cases ha
    exact ⟨_, hcall, rfl, rfl⟩

/-- A rejected call leaves its opening marker, and the sweep of the finished tape stops there. -/
theorem rejected_call_stays :
    ¬ (∀ (actions : List (Action ℚ)) (action : Action ℚ) (f : Fault) (t' : Tape ℚ),
        (ofAttempts actions).isStopped = false → action.record (ofAttempts actions) = .error f t' →
        f.isRejection = true → t'.ops = (ofAttempts actions).ops) ∧
      let t := ofAttempts (openSession ++ [.call 0 0 [.var 9] [.var], .finish])
      (t.sweep 1 ⟨⟨⟨2, 1⟩, Array.replicate 4 1⟩, 2⟩ t.noSkip #[] {}).stop =
        some (.fault (.callOpenAtStop .args)) := by
  refine ⟨fun h => ?_, by decide +kernel⟩
  have hsame := h openSession (.call 0 0 [.var 9] [.var]) (.variablePastEnd 9 2) _
    (by decide +kernel) rfl rfl
  exact absurd hsame (by decide +kernel)

end Tape

end JetTape
