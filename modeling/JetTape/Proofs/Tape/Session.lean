import JetTape.Tape.Recorder

/-!
Recording sessions: sequences of recording steps on a new tape.
-/
namespace JetTape

variable {F : Type}

namespace Recorder

/-- A recording step with its arguments. -/
inductive Action (F : Type) where
  | independents (n : Nat)
  | parameter (value : F)
  | operation (op : Opcode) (args : List Nat)
  | constant (p : Nat)
  | erf (x : Nat)
  | discrete (function x : Nat)
  | choose (r : Relation) (left right ifTrue ifFalse : Operand)
  | sum (p : Nat) (added subtracted : List Nat)
  | skip (r : Relation) (left right : Operand) (ifTrue ifFalse : List Nat)
  | load (offset : Nat) (index : Operand)
  | store (offset : Nat) (index value : Operand)
  | compare (op : Opcode) (left right : Nat)
  | print (position : Operand) (before : Nat) (value : Operand) (after : Nat)
  | register (operator : Operator F)
  | call (handle callId : Nat) (args : List Operand) (results : List (CallResult F))
  | finish

/-- Takes the step. What it answers is not kept. -/
def Action.record [Scalar F] : Action F → Recorder F Unit
  | independents n => do let _ ← Recorder.independents n
  | parameter value => do let _ ← Recorder.parameter value
  | operation op args => do let _ ← Recorder.operation op args
  | constant p => do let _ ← Recorder.constant p
  | erf x => do let _ ← Recorder.erf x
  | discrete function x => do let _ ← Recorder.discrete function x
  | choose r left right ifTrue ifFalse => do
    let _ ← Recorder.choose r left right ifTrue ifFalse
  | sum p added subtracted => do let _ ← Recorder.sum p added subtracted
  | skip r left right ifTrue ifFalse => Recorder.skip r left right ifTrue ifFalse
  | load offset index => do let _ ← Recorder.load offset index
  | store offset index value => Recorder.store offset index value
  | compare op left right => Recorder.compare op left right
  | print position before value after => Recorder.print position before value after
  | register operator => do let _ ← Recorder.register operator
  | call handle callId args results => do let _ ← Recorder.call handle callId args results
  | finish => Recorder.finish

variable {α β : Type} {m : Recorder F α} {k : α → Recorder F β} {t t' : Tape F}

/-- The tape that a step leaves, whether it comes out well or ends in a fault. -/
def left (m : Recorder F α) (t : Tape F) : Tape F :=
  match m t with
  | .ok _ t' => t'
  | .error _ t' => t'

theorem left_of_ok {a : α} (h : m t = .ok a t') : left m t = t' := by
  unfold left
  rw [h]

theorem left_of_error {f : Fault} (h : m t = .error f t') : left m t = t' := by
  unfold left
  rw [h]

/-- What a sequence leaves comes from its first part, and from its second where that is reached. -/
theorem left_bind {R : Tape F → Tape F → Prop} (htrans : ∀ t₁ t₂ t₃, R t₁ t₂ → R t₂ t₃ → R t₁ t₃)
    (hm : R t (left m t)) (hk : ∀ a s, m t = .ok a s → R t s → R s (left (k a) s)) :
    R t (left (m >>= k) t) := by
  cases hrun : m t with
  | ok a s =>
    rw [left_of_ok hrun] at hm
    have hbind : left (m >>= k) t = left (k a) s := by
      show (match EStateM.bind m k t with | .ok _ t' => t' | .error _ t' => t') = _
      rw [EStateM.bind, hrun]
      rfl
    rw [hbind]
    exact htrans _ _ _ hm (hk a s hrun hm)
  | error f s =>
    rw [left_of_error hrun] at hm
    have hbind : (m >>= k) t = .error f s := by
      show EStateM.bind m k t = _
      rw [EStateM.bind, hrun]
    rwa [left_of_error hbind]

/-- It leaves the same if the answer is not kept. -/
theorem left_void (m : Recorder F α) (t : Tape F) :
    left (do let _ ← m; pure () : Recorder F Unit) t = left m t := by
  have hbind : (do let _ ← m; pure () : Recorder F Unit) t = EStateM.bind m (fun _ => pure ()) t :=
    rfl
  rw [left, left, hbind, EStateM.bind]
  cases m t <;> rfl

end Recorder

/-- The tape comes from a session on a new tape in which no step ended in a fault. -/
def Tape.Recorded [Scalar F] (t : Tape F) : Prop :=
  ∃ actions : List (Recorder.Action F),
    actions.forM Recorder.Action.record Tape.empty = .ok () t

/-- The tape that a session on a new tape leaves. -/
def Tape.ofSession [Scalar F] (actions : List (Recorder.Action F)) : Tape F :=
  match actions.forM Recorder.Action.record Tape.empty with
  | .ok _ t => t
  | .error _ t => t

/-- No step of a session on a new tape ends in a fault. -/
def Recorder.Succeeds [Scalar F] (actions : List (Recorder.Action F)) : Bool :=
  match actions.forM Recorder.Action.record Tape.empty with
  | .ok _ _ => true
  | .error _ _ => false

theorem Tape.ofSession_recorded [Scalar F] {actions : List (Recorder.Action F)}
    (h : Recorder.Succeeds actions = true) : (Tape.ofSession actions).Recorded := by
  refine ⟨actions, ?_⟩
  unfold Recorder.Succeeds at h
  unfold Tape.ofSession
  cases hrun : actions.forM Recorder.Action.record Tape.empty with
  | ok u t => rfl
  | error f t =>
    rw [hrun] at h
    cases h

/-- The tape that a session on a new tape leaves which takes all its steps, also those after a step
that has ended in a fault. -/
def Tape.ofAttempts [Scalar F] (actions : List (Recorder.Action F)) : Tape F :=
  actions.foldl (fun t action => Recorder.left action.record t) Tape.empty

/-- Where no step ends in a fault there is none to go on after. -/
theorem Tape.ofAttempts_eq [Scalar F] {actions : List (Recorder.Action F)}
    (h : Recorder.Succeeds actions = true) : ofAttempts actions = ofSession actions := by
  unfold ofAttempts ofSession
  unfold Recorder.Succeeds at h
  generalize Tape.empty = t at h
  induction actions generalizing t with
  | nil => rfl
  | cons action actions ih =>
    change (match EStateM.bind action.record (fun _ => actions.forM Recorder.Action.record) t with
      | .ok _ _ => true | .error _ _ => false) = true at h
    show actions.foldl _ (Recorder.left action.record t) =
      (match EStateM.bind action.record (fun _ => actions.forM Recorder.Action.record) t with
        | .ok _ t => t | .error _ t => t)
    rw [EStateM.bind] at h ⊢
    cases hrun : action.record t with
    | ok u s =>
      rw [hrun] at h
      rw [Recorder.left_of_ok hrun]
      exact ih s h
    | error f s =>
      rw [hrun] at h
      cases h

/-- Instructions and arguments can be counted in 32 bits, as the tables of a tape count them.
Recording refuses parameters, operators and call ids past that range but does not look at the number
of words, so a recorded tape may fail this; what is read back of it need not be what was recorded,
see `Tape.stray_misread`. -/
structure Tape.Countable (t : Tape F) : Prop where
  instrs : t.ops.size < Index.argBound
  args : t.args.size < Index.argBound

end JetTape
