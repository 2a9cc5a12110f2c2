import JetTape.Proofs.Replay.Items
import JetTape.Proofs.Tape.Soundness

/-!
Replays under longer tables. An instruction that refers to nothing beyond the parameter table and
the operators of a program is replayed in the same way when parameters and operators are added
behind them, and so is a program of such instructions.
-/
namespace JetTape

/-- An entry stays where it is when others are added behind it. -/
theorem Index.get_append {α : Type} {xs : Array α} {i : Nat} (h : i < xs.size) (ys : Array α) :
    get (xs ++ ys) i = get xs i := by
  have h' : i < (xs ++ ys).size := by
    rw [Array.size_append]
    omega
  rw [get, get, dif_pos h, dif_pos h', Array.getElem_append_left h]

variable {F : Type}

namespace Recurrence

variable {n m : Nat} {params : Array F}

/-- The value of an operand of a conditional. -/
theorem conditionValue_append {a : Operand} {flags bit : Nat} (ha : a.Valid n params.size)
    (hbit : flags.testBit bit = (a.source = .var)) (more : Array F) :
    conditionValue flags bit a.index (params ++ more) =
      conditionValue flags bit a.index params := by
  cases a with
  | var x => simp only [conditionValue, hbit, Operand.source, if_true]
  | par i =>
    have hi : i < params.size := ha
    simp only [conditionValue, Operand.index, Index.get_append hi]

variable [Scalar F]

/-- An update reads the parameters that its arguments name, and no others. -/
theorem update_append {ins : Instr} (hvalid : Instr.Valid n params.size m ins.op ins.args) (q : Nat)
    (resolved : Array Nat) (more : Array F) :
    update q (params ++ more) resolved ins = update q params resolved ins := by
  obtain ⟨op, args, row⟩ := ins
  cases hvalid with
  | @arithmetic f s t a b hf ha hb =>
    cases f with
    | mulPV | zmulPV =>
      cases hf
      have hp : a < params.size := ha
      simp [update, ofOpcode?, arithmetic, Index.arg, Index.get_append hp]
    | divVP | zmulVP =>
      cases hf
      have hp : b < params.size := hb
      simp [update, ofOpcode?, arithmetic, Index.arg, Index.get_append hp]
    | _ => rfl
  | @power f s t a b hf ha hb =>
    cases f with
    | vp =>
      cases hf
      have hp : b < params.size := hb
      simp [update, ofOpcode?, power, Index.arg, Index.get_append hp]
    | _ => rfl
  | elementary f => cases f <;> rfl
  | erf hx hi hc => simp [update, ofOpcode?, erf, Index.arg, Index.get_append hc]
  | @choose r left right ifTrue ifFalse hl hr =>
    obtain ⟨h0, h1, -, -⟩ := testBit_chooseFlags left right ifTrue ifFalse
    simp only [update, ofOpcode?, choose, conditionValue_append hl h0, conditionValue_append hr h1]
  | constant | discrete | sum | load | skip | store | compare | print => rfl

end Recurrence

namespace Program

/-- A program with parameters added to its table, and with another reading of call markers. -/
def extend (P : Program F) (more : Array F)
    (callSite : List Nat → Except Fault (CallSite F)) : Program F :=
  { P with params := P.params ++ more, callSite }

/-- No instruction of the program refers to a parameter beyond its table, and its markers are read
as `callSite` reads them. -/
structure Refers (P : Program F) (callSite : List Nat → Except Fault (CallSite F)) : Prop where
  framing_or_sound : ∀ i ins, P.instr i = .ok ins →
    (ins.op = .start ∨ ins.op = .independent ∨ ins.op = .stop) ∨
      ∃ n m k, Instr.Sound n P.params.size m k ins.op ins.args
  markers : ∀ i ins, P.instr i = .ok ins → ins.op = .callMarker →
    callSite ins.args = P.callSite ins.args

end Program

namespace Replay

variable [Scalar F] {P : Program F} {more : Array F}
variable {callSite : List Nat → Except Fault (CallSite F)}
variable {q i : Nat} {mask : Array Bool} {resolved : Array Nat} {options : Options} {ins : Instr}

/-- Outside calls the update of the arena alone looks at the parameters. -/
theorem step_extend_plain {n m : Nat} (hvalid : Instr.Valid n P.params.size m ins.op ins.args) :
    step (P.extend more callSite) q resolved options i ins =
      step P q resolved options i ins := by
  rw [step_eq_update hvalid.isPlain, step_eq_update hvalid.isPlain]
  exact congrArg (fun u => (liftM u : Replay F Unit))
    (Recurrence.update_append hvalid q resolved more)

theorem step_extend (h : P.Refers callSite) {j : Nat} (hins : P.instr j = .ok ins) :
    step (P.extend more callSite) q resolved options i ins =
      step P q resolved options i ins := by
  have hmarker := h.markers j ins hins
  have hget {c : Nat} (hc : c < P.params.size) := Index.get_append hc more
  obtain ⟨op, args, row⟩ := ins
  rcases h.framing_or_sound j _ hins with (hop | hop | hop) | ⟨n, m, k, hsound⟩
  · cases hop
    rfl
  · cases hop
    rfl
  · cases hop
    rfl
  · cases hsound with
    | plain hvalid => exact step_extend_plain hvalid
    | callMarker callId args results hhandle =>
      show (do marker options q (← callSite _)) =
        (do marker options q (← P.callSite _) : Replay F Unit)
      rw [hmarker rfl]
    | @callArg a ha =>
      cases a with
      | var x => rfl
      | par c =>
        show (do
          let value ← Index.get (P.params ++ more) c
          takeArg (constantSeries value)) = (do
          let value ← Index.get P.params c
          takeArg (constantSeries value) : Replay F Unit)
        rw [hget ha]
    | varResult => rfl
    | @parResult c hc =>
      show (do
        let value ← Index.get (P.params ++ more) c
        takeResult 0 (constantSeries value)) = (do
        let value ← Index.get P.params c
        takeResult 0 (constantSeries value) : Replay F Unit)
      rw [hget hc]

end Replay

namespace Cursor

variable {P : Program F} {callSite : List Nat → Except Fault (CallSite F)}

theorem pass_extend (h : P.Refers callSite) (more : Array F) (mask : Array Bool) (i : Nat) :
    pass (P.extend more callSite) mask i = pass P mask i := by
  have hinstr : (P.extend more callSite).instr = P.instr := rfl
  unfold pass
  rw [hinstr]
  cases hins : P.instr i with
  | error f => rfl
  | ok ins =>
    by_cases hop : ins.op = .callMarker
    · simp only [Program.extend, h.markers i ins hins hop, hop, bind, Except.bind]
    · simp only [hop, bind, Except.bind, if_false]

/-- The cursor goes the same way. -/
theorem next_extend (h : P.Refers callSite) (more : Array F) (mask : Array Bool) (i : Nat) :
    next (P.extend more callSite) mask i = next P mask i := by
  induction i using next.induct P mask with
  | case1 i hi hm j hp ih =>
    have hmarked : mask[i]? = some true := Array.getElem?_eq_some_iff.mpr ⟨hi, hm⟩
    rw [next_of_marked hmarked hp,
      next_of_marked hmarked ((pass_extend h more mask i).trans hp), ih]
  | case2 i hi hm f hp =>
    rw [next, next, dif_pos hi, dif_pos hi, if_pos hm, if_pos hm, hp,
      (pass_extend h more mask i).trans hp]
  | case3 i hi hm => rw [next, next, dif_pos hi, dif_pos hi, if_neg hm, if_neg hm]
  | case4 i hi => rw [next, next, dif_neg hi, dif_neg hi]

end Cursor

namespace Replay

variable [Scalar F] {P : Program F} {callSite : List Nat → Except Fault (CallSite F)}
variable {q : Nat} {mask : Array Bool} {resolved : Array Nat} {options : Options}

/-- The cursor stands at the same instructions, and each of them takes the same step. -/
theorem replayFrom_extend (h : P.Refers callSite) (more : Array F) (i : Nat) :
    replayFrom (P.extend more callSite) q mask resolved options i =
      replayFrom P q mask resolved options i := by
  have hcursor := Cursor.next_extend h more mask
  induction i using replayFrom.induct P mask with
  | case1 i f hnext =>
    rw [replayFrom_of_error hnext, replayFrom_of_error ((hcursor i).trans hnext)]
  | case2 i j hnext ih =>
    have hinstr : (P.extend more callSite).instr = P.instr := rfl
    rw [replayFrom_eq hnext, replayFrom_eq ((hcursor i).trans hnext), hinstr, ih]
    cases hins : P.instr j with
    | error f => rfl
    | ok ins =>
      refine congrArg (reportSkipped options i j >>= ·) (funext fun _ => ?_)
      show (if ins.op = .stop then checkClosed else
        step (P.extend more callSite) q resolved options j ins >>= _) = _
      rw [step_extend h hins]
      rfl

theorem sweep_extend (h : P.Refers callSite) (more : Array F) :
    sweep (P.extend more callSite) q mask resolved options = sweep P q mask resolved options := by
  rw [sweep_eq, sweep_eq, funext (replayFrom_extend h more)]
  rfl

end Replay

end JetTape
