import Mathlib.Data.List.Induction
import JetTape.Proofs.Replay.Asking
import JetTape.Proofs.Replay.Reads

/-!
Gathered arguments and results. What a call block gathers from an arena holds the series of every
direction, so the request that a frame makes for a direction is the request of the block on that
direction's jet, and scattered answers fill the result rows of every jet.
-/
namespace JetTape

open Arena (Fits Along)
open Call (Frame Stage)

variable {F : Type} [Scalar F]

namespace Plan

variable (p : Plan F)

/-- A coefficient of a call argument or result along a jet. -/
def callCoeff (ins : Instr) (j : Jet F) (k : Nat) : F :=
  match ins.op with
  | .callArg .var => j (ins.args.getD 0 0) k
  | .callResult .var => j ins.row k
  | _ => if k = 0 then p.params.getD (ins.args.getD 0 0) 0 else 0

/-- The row that receives a result. A constant has the phantom row. -/
def target (ins : Instr) : Nat := if ins.op = .callResult .var then ins.row else 0

/-- The series of listed arguments or results, staged with room for `n` of them. -/
def staged (a : Arena F) (n : Nat) (l : List Instr) : Stage F :=
  l.zipIdx.foldl (fun s (ins, j) => s.fill j fun k d => p.callCoeff ins (a.jet d) k)
    (.new n p.order a.layout.directions)

/-- The targets of listed results, with room for `n` of them. -/
def targets (n : Nat) (l : List Instr) : Array Nat :=
  l.zipIdx.foldl (fun ts (ins, i) => ts.setIfInBounds i (target ins)) (Array.replicate n 0)

/-- The frame of a block that has seen some of its arguments and results. -/
def frame (a : Arena F) (b : Block) (args results : List Instr) : Frame F where
  callId := b.opening.args.getD 1 0
  argCount := b.args.length
  resultCount := b.results.length
  seenArgs := args.length
  seenResults := results.length
  args := p.staged a b.args.length args
  results := p.staged a b.results.length results
  targets := targets b.results.length results

variable {p} {a : Arena F} {b : Block} {l : Nat}

theorem callSeries_eq (ins : Instr) (j : Jet F) :
    p.callSeries ins j = (List.range' 0 (p.order + 1)).map (p.callCoeff ins j) := by
  have hconstant (x : F) : (x :: List.replicate p.order 0) =
      (List.range' 0 (p.order + 1)).map fun k => if k = 0 then x else 0 := by
    have htail : (List.range' (0 + 1) p.order).map (fun k => if k = 0 then x else 0) =
        (List.range' (0 + 1) p.order).map fun _ => 0 := by
      apply List.map_congr_left
      intro k hk
      rw [List.mem_range'_1] at hk
      rw [if_neg (by omega)]
    rw [List.range'_succ, List.map_cons, if_pos rfl, htail]
    simp
  obtain ⟨op, args, row⟩ := ins
  cases op with
  | callArg s =>
    cases s with
    | var => rfl
    | par => exact hconstant _
  | callResult s =>
    cases s with
    | var => rfl
    | par => exact hconstant _
  | _ => exact hconstant _

theorem length_callSeries (ins : Instr) (j : Jet F) :
    (p.callSeries ins j).length = p.order + 1 := by
  rw [callSeries_eq, List.length_map, List.length_range']

theorem getElem?_callSeries {ins : Instr} {j : Jet F} {k : Nat} (hk : k ≤ p.order) :
    (p.callSeries ins j)[k]? = some (p.callCoeff ins j k) := by
  rw [callSeries_eq, List.getElem?_map]
  simp [show k < p.order + 1 by omega]

theorem getD_callSeries {ins : Instr} {j : Jet F} {k : Nat} (hk : k ≤ p.order) :
    (p.callSeries ins j).getD k 0 = p.callCoeff ins j k := by
  rw [List.getD_eq_getElem?_getD, getElem?_callSeries hk, Option.getD_some]

/-- The coefficients of the arguments in a request. -/
theorem getElem?_request_args {j : Jet F} {i k : Nat} (hi : i < b.args.length)
    (hk : k ≤ p.order) :
    (p.request b j).args[i * (p.order + 1) + k]? = some (p.callCoeff b.args[i] j k) := by
  show (List.toArray _)[_]? = _
  rw [List.getElem?_toArray, getElem?_flatMap_of_length (fun ins _ => length_callSeries ins j) hi
    (Nat.lt_succ_of_le hk), getElem?_callSeries hk]

/-- The coefficients of the results in a request, with zeros at the order of the sweep. -/
theorem getElem?_request_results {j : Jet F} {i k : Nat} (hi : i < b.results.length)
    (hk : k ≤ p.order) :
    (p.request b j).results[i * (p.order + 1) + k]? =
      some (if k < p.order then p.callCoeff b.results[i] j k else 0) := by
  have hlen : ∀ ins ∈ b.results,
      ((p.callSeries ins j).take p.order ++ [0]).length = p.order + 1 := by
    intro ins _
    simp [length_callSeries]
  show (List.toArray _)[_]? = _
  rw [List.getElem?_toArray, getElem?_flatMap_of_length hlen hi (Nat.lt_succ_of_le hk)]
  split
  · rename_i hlow
    rw [List.getElem?_append_left (by simpa [length_callSeries] using hlow),
      List.getElem?_take_of_lt hlow, getElem?_callSeries hk]
  · obtain rfl : k = p.order := by omega
    simp [length_callSeries]

theorem size_request_args (j : Jet F) :
    (p.request b j).args.size = b.args.length * (p.order + 1) := by
  show (List.toArray _).size = _
  rw [List.size_toArray, length_flatMap_of_length fun ins _ => length_callSeries ins j]

theorem size_request_results (j : Jet F) :
    (p.request b j).results.size = b.results.length * (p.order + 1) := by
  show (List.toArray _).size = _
  rw [List.size_toArray, length_flatMap_of_length fun ins _ => ?_]
  simp [length_callSeries]

/-- All directions share the order-0 coefficient of an argument or result. -/
theorem callCoeff_zero (ins : Instr) {d d' : Nat} (hd : d < a.layout.directions)
    (hd' : d' < a.layout.directions) :
    p.callCoeff ins (a.jet d) 0 = p.callCoeff ins (a.jet d') 0 := by
  unfold callCoeff
  split
  · exact Arena.jet_zero hd hd' _
  · exact Arena.jet_zero hd hd' _
  · rfl

section Staged

variable {n : Nat} {args : List Instr} {ins : Instr}

theorem staged_concat :
    p.staged a n (args ++ [ins]) =
      (p.staged a n args).fill args.length fun k d => p.callCoeff ins (a.jet d) k := by
  simp [staged, List.zipIdx_append]

theorem sized_staged : (p.staged a n args).Sized n p.order a.layout.directions := by
  induction args using List.reverseRecOn with
  | nil => exact Stage.sized_new n p.order a.layout.directions
  | append_singleton args ins ih =>
    rw [staged_concat]
    exact ih.fill _ _

theorem peek_staged (hn : args.length ≤ n) {j k d : Nat} (hj : j < args.length)
    (hk : k ≤ p.order) (hd : d < a.layout.directions) :
    (p.staged a n args).all.peek j k d = p.callCoeff args[j] (a.jet d) k := by
  induction args using List.reverseRecOn with
  | nil => cases hj
  | append_singleton args ins ih =>
    rw [List.length_append, List.length_singleton] at hn hj
    have hshared : ∀ d < a.layout.directions,
        p.callCoeff ins (a.jet d) 0 = p.callCoeff ins (a.jet 0) 0 :=
      fun d hd => callCoeff_zero ins hd (by omega)
    rw [staged_concat, Stage.peek_fill sized_staged (by omega) hshared hk hd]
    by_cases hlast : j = args.length
    · subst hlast
      rw [if_pos rfl, List.getElem_concat_length rfl]
    · rw [if_neg hlast, List.getElem_append_left (by omega)]
      exact ih (by omega) (by omega)

omit [Scalar F] in
theorem targets_concat :
    targets n (args ++ [ins]) = (targets n args).setIfInBounds args.length (target ins) := by
  simp [targets, List.zipIdx_append]

omit [Scalar F] in
theorem toList_targets (hn : args.length ≤ n) :
    (targets n args).toList = args.map target ++ List.replicate (n - args.length) 0 := by
  induction args using List.reverseRecOn with
  | nil => simp [targets]
  | append_singleton args ins ih =>
    rw [List.length_append, List.length_singleton] at hn
    have hsplit : n - args.length = (n - (args.length + 1)) + 1 := by omega
    rw [targets_concat, Array.toList_setIfInBounds, ih (by omega), hsplit, List.replicate_succ,
      List.set_append_right _ _ (by simp), List.length_map, Nat.sub_self, List.set_cons_zero]
    simp

end Staged

section Put

variable {args results : List Instr} {ins : Instr} {value : Nat → Nat → Arena.Read F F}

/-- The next argument joins the frame. -/
theorem putArg_frame (hr : 0 < a.layout.directions)
    (hvalue : ∀ k ≤ p.order, ∀ d < a.layout.directions,
      value k d a = .ok (p.callCoeff ins (a.jet d) k)) :
    (p.frame a b args results).putArg value a = .ok (p.frame a b (args ++ [ins]) results) := by
  have hput : (p.staged a b.args.length args).put args.length value a =
      .ok (p.staged a b.args.length (args ++ [ins])) := by
    rw [staged_concat]
    exact sized_staged.put_eq_fill hr hvalue
  unfold Frame.putArg
  refine (Arena.read_of_eq hput).trans ?_
  simp [frame, pure, ReaderT.pure, Except.pure]

/-- The next result joins the frame. -/
theorem putResult_frame {row : Nat} (hrow : target ins = row) (hr : 0 < a.layout.directions)
    (hvalue : ∀ k ≤ p.order, ∀ d < a.layout.directions,
      value k d a = .ok (p.callCoeff ins (a.jet d) k)) :
    (p.frame a b args results).putResult row value a =
      .ok (p.frame a b args (results ++ [ins])) := by
  have hput : (p.staged a b.results.length results).put results.length value a =
      .ok (p.staged a b.results.length (results ++ [ins])) := by
    rw [staged_concat]
    exact sized_staged.put_eq_fill hr hvalue
  subst hrow
  unfold Frame.putResult
  refine (Arena.read_of_eq hput).trans ?_
  simp [frame, targets_concat, pure, ReaderT.pure, Except.pure]

end Put

/-- The requests of a complete frame are those of its block. -/
theorem requestAlong_frame {d : Nat} (hd : d < a.layout.directions) :
    (p.frame a b b.args b.results).requestAlong p.order d = p.request b (a.jet d) := by
  have hargs : ((p.staged a b.args.length b.args).turn b.args.length (p.order + 1) d).along.cells =
      (b.args.flatMap fun ins => p.callSeries ins (a.jet d)).toArray := by
    apply Stage.cells_eq_flatMap (sized_staged.turn _ _) fun ins _ => length_callSeries ins _
    intro j hj k hk
    rw [Stage.peek_turn sized_staged hj hk, if_pos (by omega),
      peek_staged (Nat.le_refl _) hj hk hd, getD_callSeries hk]
  have hresults : ((p.staged a b.results.length b.results).turn b.results.length p.order
      d).along.cells =
      (b.results.flatMap fun ins => (p.callSeries ins (a.jet d)).take p.order ++ [0]).toArray := by
    apply Stage.cells_eq_flatMap (sized_staged.turn _ _)
    · intro ins _
      simp [length_callSeries]
    · intro i hi k hk
      rw [Stage.peek_turn sized_staged hi hk]
      by_cases hlow : k < p.order
      · have hlt : k < (p.callSeries b.results[i] (a.jet d)).length := by
          rw [length_callSeries]
          omega
        rw [if_pos hlow, peek_staged (Nat.le_refl _) hi hk hd, ← getD_callSeries hk]
        simp [List.getElem?_append, length_callSeries, hlow, List.getElem?_eq_getElem hlt]
      · obtain rfl : k = p.order := by omega
        simp [length_callSeries]
  simp only [Frame.requestAlong, Frame.request, Frame.turn, frame, request, hargs, hresults]

omit [Scalar F] in
theorem toList_targets_self (l : List Instr) : (targets l.length l).toList = l.map target := by
  simp [toList_targets]

/-- The instruction is a call result: a row of its own or a constant. -/
def IsResult (n : Nat) (ins : Instr) : Prop :=
  (ins.op = .callResult .var ∧ 0 < ins.row ∧ ins.row < n) ∨ ins.op = .callResult .par

/-- The coefficients of listed results, given to every direction from its own answers. -/
theorem along_scatter {n q : Nat} {results : List Instr} (answers : Arena F)
    (hresults : ∀ ins ∈ results, IsResult n ins) :
    Along n q (Replay.scatter q answers (results.map target)) fun l j =>
      j.fill q (fun i => answers.peek i q l) 0 results := by
  suffices h : ∀ i, Along n q (((results.map target).zipIdx i).forM fun w =>
      if 0 < w.1 then Arena.assign w.1 q fun l => return answers.peek w.2 q l else pure ())
      fun l j => j.fill q (fun i => answers.peek i q l) i results from h 0
  induction results with
  | nil => exact fun _ => Arena.along_pure
  | cons ins rest ih =>
    intro i
    have hrest := ih (fun i hi => hresults i (List.mem_cons_of_mem ins hi)) (i + 1)
    rw [List.map_cons, List.zipIdx_cons]
    apply Along.bind (f := fun l j => if ins.op = .callResult .var
      then j.set ins.row q (answers.peek i q l) else j) ?_ hrest
    rcases hresults ins List.mem_cons_self with ⟨hop, hpos, hlt⟩ | hop
    · simp only [target, hop, hpos, if_true]
      exact Arena.along_assign hlt fun _ _ _ _ => rfl
    · simp only [target, hop]
      exact Arena.along_pure

end Plan

omit [Scalar F] in
theorem Jet.fill_congr {q i : Nat} {answer answer' : Nat → F} {l : List Instr} {j : Jet F}
    (h : ∀ k, k < i + l.length → answer k = answer' k) :
    j.fill q answer i l = j.fill q answer' i l := by
  induction l generalizing i j with
  | nil => rfl
  | cons ins l ih =>
    rw [List.length_cons] at h
    unfold Jet.fill
    rw [h i (by omega), ih fun k hk => h k (by omega)]

end JetTape
