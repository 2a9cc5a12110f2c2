import JetTape.Proofs.Replay.Items
import JetTape.Proofs.Replay.Writes

/-!
Bracketing of call blocks. The call instructions of a program, without what lies between them, may
form a sequence of whole blocks. A replay reads them from left to right and keeps the counts of the
open block in its frame. What may follow is determined by these counts, and an instruction faults if
and only if nothing that begins with it may follow.
-/
namespace JetTape

open Arena (Fits SameShape)
open Call (Frame Stage)

variable {F : Type}

/-- Markers, call arguments and call results. -/
def Opcode.isCall : Opcode → Bool
  | .callMarker | .callArg _ | .callResult _ => true
  | _ => false

/-- The call instructions of a list. -/
def callsOf (l : List Instr) : List Instr := l.filter (·.op.isCall)

/-- What a closing marker has to repeat: the call id and the numbers of arguments and results. -/
def CallSite.header (site : CallSite F) : Nat × Nat × Nat :=
  (site.callId, site.argCount, site.resultCount)

def Call.Frame.header (f : Frame F) : Nat × Nat × Nat := (f.callId, f.argCount, f.resultCount)

/-- The call instruction with which a replay in this phase can go on. -/
def Call.Phase.Expects : Phase → Opcode → Prop
  | .start, op | .finished, op => op = .callMarker
  | .args, op => ∃ kind, op = .callArg kind
  | .results, op => ∃ kind, op = .callResult kind

namespace Call.Phase

theorem expects_arg {p : Phase} {kind : Source} : p.Expects (.callArg kind) ↔ p = .args := by
  cases p <;> simp [Expects]

theorem expects_result {p : Phase} {kind : Source} :
    p.Expects (.callResult kind) ↔ p = .results := by
  cases p <;> simp [Expects]

theorem expects_marker {p : Phase} : p.Expects .callMarker ↔ p = .start ∨ p = .finished := by
  cases p <;> simp [Expects]

end Call.Phase

/-!
### The grammar
-/

/-- `n` call arguments. -/
structure ArgList (n : Nat) (l : List Instr) : Prop where
  length : l.length = n
  ops : ∀ ins ∈ l, ∃ kind, ins.op = .callArg kind

/-- `n` call results. -/
structure ResultList (n : Nat) (l : List Instr) : Prop where
  length : l.length = n
  ops : ∀ ins ∈ l, ∃ kind, ins.op = .callResult kind

/-- The instruction is a marker of a call with the given header. -/
structure Program.Marks (P : Program F) (header : Nat × Nat × Nat) (ins : Instr) : Prop where
  op : ins.op = .callMarker
  site : ∃ site, P.callSite ins.args = .ok site ∧ site.header = header

/-- The list is a sequence of call blocks: a marker, as many arguments and then as many results as
it counts, and a marker that repeats it. -/
inductive Program.Brackets (P : Program F) : List Instr → Prop where
  | nil : P.Brackets []
  | block {opening closing : Instr} {args results rest : List Instr} {callId n m : Nat}
      (hopening : P.Marks (callId, n, m) opening) (hargs : ArgList n args)
      (hresults : ResultList m results) (hclosing : P.Marks (callId, n, m) closing)
      (hrest : P.Brackets rest) :
      P.Brackets (opening :: (args ++ results ++ closing :: rest))

/-- The list begins with `n` arguments, `m` results and a marker with the given header, and a
sequence of call blocks follows. -/
def Program.Closes (P : Program F) (header : Nat × Nat × Nat) (n m : Nat) (l : List Instr) : Prop :=
  ∃ args results closing rest, l = args ++ results ++ closing :: rest ∧ ArgList n args ∧
    ResultList m results ∧ P.Marks header closing ∧ P.Brackets rest

section Grammar

variable {P : Program F} {header : Nat × Nat × Nat} {n m : Nat} {ins : Instr} {l : List Instr}

theorem argList_nil : ArgList 0 [] := ⟨rfl, by simp⟩

theorem resultList_nil : ResultList 0 [] := ⟨rfl, by simp⟩

theorem argList_cons :
    ArgList (n + 1) (ins :: l) ↔ (∃ kind, ins.op = .callArg kind) ∧ ArgList n l := by
  constructor
  · rintro ⟨hlen, hops⟩
    exact ⟨hops ins List.mem_cons_self, Nat.succ.inj hlen,
      fun i hi => hops i (List.mem_cons_of_mem ins hi)⟩
  · rintro ⟨hop, hlen, hops⟩
    exact ⟨congrArg Nat.succ hlen, List.forall_mem_cons.mpr ⟨hop, hops⟩⟩

theorem resultList_cons :
    ResultList (n + 1) (ins :: l) ↔ (∃ kind, ins.op = .callResult kind) ∧ ResultList n l := by
  constructor
  · rintro ⟨hlen, hops⟩
    exact ⟨hops ins List.mem_cons_self, Nat.succ.inj hlen,
      fun i hi => hops i (List.mem_cons_of_mem ins hi)⟩
  · rintro ⟨hop, hlen, hops⟩
    exact ⟨congrArg Nat.succ hlen, List.forall_mem_cons.mpr ⟨hop, hops⟩⟩

namespace Program

theorem not_closes_nil : ¬ P.Closes header n m [] := by
  rintro ⟨args, results, closing, rest, hl, -⟩
  simp at hl

/-- As long as arguments are missing, one has to come. -/
theorem closes_arg : P.Closes header (n + 1) m (ins :: l) ↔
    (∃ kind, ins.op = .callArg kind) ∧ P.Closes header n m l := by
  constructor
  · rintro ⟨args, results, closing, rest, hl, hargs, hrest⟩
    cases args with
    | nil => cases hargs.length
    | cons first args =>
      rw [List.append_assoc, List.cons_append, List.cons.injEq] at hl
      obtain ⟨rfl, rfl⟩ := hl
      obtain ⟨hop, hargs⟩ := argList_cons.mp hargs
      exact ⟨hop, args, results, closing, rest, (List.append_assoc _ _ _).symm, hargs, hrest⟩
  · rintro ⟨hop, args, results, closing, rest, rfl, hargs, hrest⟩
    exact ⟨ins :: args, results, closing, rest, rfl, argList_cons.mpr ⟨hop, hargs⟩, hrest⟩

/-- Without missing arguments, but with missing results, a result has to come. -/
theorem closes_result : P.Closes header 0 (m + 1) (ins :: l) ↔
    (∃ kind, ins.op = .callResult kind) ∧ P.Closes header 0 m l := by
  constructor
  · rintro ⟨args, results, closing, rest, hl, hargs, hresults, hrest⟩
    obtain rfl := List.length_eq_zero_iff.mp hargs.length
    cases results with
    | nil => cases hresults.length
    | cons first results =>
      rw [List.nil_append, List.cons_append, List.cons.injEq] at hl
      obtain ⟨rfl, rfl⟩ := hl
      obtain ⟨hop, hresults⟩ := resultList_cons.mp hresults
      exact ⟨hop, [], results, closing, rest, rfl, argList_nil, hresults, hrest⟩
  · rintro ⟨hop, args, results, closing, rest, rfl, hargs, hresults, hrest⟩
    obtain rfl := List.length_eq_zero_iff.mp hargs.length
    exact ⟨[], ins :: results, closing, rest, rfl, argList_nil, resultList_cons.mpr ⟨hop, hresults⟩,
      hrest⟩

/-- Where nothing else is missing, the closing marker has to come. -/
theorem closes_marker : P.Closes header 0 0 (ins :: l) ↔ P.Marks header ins ∧ P.Brackets l := by
  constructor
  · rintro ⟨args, results, closing, rest, hl, hargs, hresults, hrest⟩
    obtain rfl := List.length_eq_zero_iff.mp hargs.length
    obtain rfl := List.length_eq_zero_iff.mp hresults.length
    cases hl
    exact hrest
  · rintro ⟨hmarks, hrest⟩
    exact ⟨[], [], ins, l, rfl, argList_nil, resultList_nil, hmarks, hrest⟩

/-- Between blocks an opening marker has to come. -/
theorem brackets_cons {site : CallSite F} (hsite : P.callSite ins.args = .ok site) :
    P.Brackets (ins :: l) ↔ ins.op = .callMarker ∧
      P.Closes site.header site.argCount site.resultCount l := by
  constructor
  · intro h
    cases h with
    | block hopening hargs hresults hclosing hrest =>
      obtain ⟨hop, site', hsite', hheader⟩ := hopening
      rw [hsite] at hsite'
      cases hsite'
      cases hheader
      exact ⟨hop, _, _, _, _, rfl, hargs, hresults, hclosing, hrest⟩
  · rintro ⟨hop, args, results, closing, rest, rfl, hargs, hresults, hclosing, hrest⟩
    exact .block ⟨hop, site, hsite, rfl⟩ hargs hresults hclosing hrest

theorem op_of_brackets (h : P.Brackets (ins :: l)) : ins.op = .callMarker := by
  cases h with
  | block hopening => exact hopening.op

/-- The list completes what the replay has read: the open call block, if any, and then whole
blocks. -/
def Completes (P : Program F) : Option (Frame F) → List Instr → Prop
  | none, l => P.Brackets l
  | some f, l => P.Closes f.header (f.argCount - f.seenArgs) (f.resultCount - f.seenResults) l

end Program

end Grammar

/-!
### Frames
-/

/-- The cells of series `j` are inside the stage, along all directions and along one. -/
def Call.Stage.Covers (s : Stage F) (q r j : Nat) : Prop :=
  ∀ k ≤ q, (∀ l < r, s.all.layout.cell j k l < s.all.cells.size) ∧
    s.along.layout.cell j k 0 < s.along.cells.size

/-- The stages of a frame have room for all arguments and all results, and the counts of what has
been seen are those of its phase. -/
structure Call.Frame.Staged (q r : Nat) (f : Frame F) : Prop where
  args : f.args.Sized f.argCount q r
  results : f.results.Sized f.resultCount q r
  targets : f.targets.size = f.resultCount
  seen : match f.phase with
    | .start => False
    | .args => f.seenArgs < f.argCount ∧ f.seenResults = 0
    | .results => f.seenArgs = f.argCount ∧ f.seenResults < f.resultCount
    | .finished => f.seenArgs = f.argCount ∧ f.seenResults = f.resultCount

namespace Call

theorem Stage.Sized.covers {s : Stage F} {n q r j : Nat} (h : s.Sized n q r) (hj : j < n) :
    s.Covers q r j := by
  intro k hk
  constructor
  · intro l hl
    rw [h.all_rows]
    apply Layout.cell_lt hj
    · rw [h.all_layout]
      exact Nat.lt_succ_of_le hk
    · rwa [h.all_layout]
  · rw [h.along_rows]
    apply Layout.cell_lt hj <;> rw [h.along_layout]
    · exact Nat.lt_succ_of_le hk
    · exact Nat.one_pos

/-- Staging a series changes no size, whatever is read. -/
theorem Stage.Sized.put {s s' : Stage F} {n q r j : Nat} {value : Nat → Nat → Arena.Read F F}
    {a : Arena F} (h : s.Sized n q r) (hput : s.put j value a = .ok s') : s'.Sized n q r := by
  obtain ⟨all, hall, hput⟩ := bind_eq_ok_iff.mp hput
  cases hput
  suffices hsame : ∀ (ps : List (Nat × Nat)) (b b' : Arena F),
      (ps.foldlM (fun all p => return all.poke j p.1 p.2 (← value p.1 p.2)) b :
        Arena.Read F (Arena F)) a = .ok b' →
      b'.layout = b.layout ∧ b'.cells.size = b.cells.size by
    obtain ⟨hlayout, hsize⟩ := hsame _ _ _ hall
    exact ⟨hlayout.trans h.all_layout, hsize.trans h.all_size, h.along_layout, h.along_size⟩
  intro ps
  induction ps with
  | nil =>
    intro b b' hfold
    cases hfold
    exact ⟨rfl, rfl⟩
  | cons p ps ih =>
    intro b b' hfold
    rw [List.foldlM_cons] at hfold
    obtain ⟨b₁, hfirst, hrest⟩ := bind_eq_ok_iff.mp hfold
    obtain ⟨x, -, hfirst⟩ := bind_eq_ok_iff.mp hfirst
    cases hfirst
    obtain ⟨hlayout, hsize⟩ := ih _ _ hrest
    exact ⟨hlayout, hsize.trans Array.size_setIfInBounds⟩

namespace Frame

variable {f f' : Frame F} {q r : Nat}

theorem phase_ne_start (f : Frame F) : f.phase ≠ .start := by
  unfold phase
  split
  · exact nofun
  · split <;> exact nofun

theorem checkClosing_eq_ok_iff {site : CallSite F} :
    f.checkClosing site = .ok () ↔ site.header = f.header := by
  simp only [checkClosing, bind_eq_ok_iff, require_eq_ok_iff, header, CallSite.header,
    Prod.mk.injEq]
  constructor
  · rintro ⟨-, hid, hargs, hresults⟩
    exact ⟨hid.symm, hargs.symm, hresults.symm⟩
  · rintro ⟨hid, hargs, hresults⟩
    exact ⟨(), hid.symm, hargs.symm, hresults.symm⟩

/-- A frame with these counts and sizes is staged. -/
theorem Staged.of_seen (hargs : f.args.Sized f.argCount q r)
    (hresults : f.results.Sized f.resultCount q r) (htargets : f.targets.size = f.resultCount)
    (hseen : (f.seenArgs < f.argCount ∧ f.seenResults = 0) ∨
      (f.seenArgs = f.argCount ∧ f.seenResults ≤ f.resultCount)) : f.Staged q r := by
  refine ⟨hargs, hresults, htargets, ?_⟩
  unfold phase
  by_cases hmissing : f.seenArgs < f.argCount
  · rw [if_pos hmissing]
    exact ⟨hmissing, by omega⟩
  · rw [if_neg hmissing]
    by_cases hdue : f.seenResults < f.resultCount
    · rw [if_pos hdue]
      exact ⟨by omega, hdue⟩
    · rw [if_neg hdue]
      exact ⟨by omega, by omega⟩

theorem staged_opened [Scalar F] (site : CallSite F) (q r : Nat) :
    (Frame.opened site q r).Staged q r := by
  have hseen : (0 < site.argCount ∧ 0 = 0) ∨ (0 = site.argCount ∧ 0 ≤ site.resultCount) := by omega
  exact .of_seen (Stage.sized_new _ q r) (Stage.sized_new _ q r) Array.size_replicate hseen

theorem Staged.putArg {value : Nat → Nat → Arena.Read F F} {a : Arena F} (h : f.Staged q r)
    (hphase : f.phase = .args) (hput : f.putArg value a = .ok f') :
    f'.Staged q r ∧ f'.targets = f.targets := by
  obtain ⟨args, hargs, hput⟩ := bind_eq_ok_iff.mp hput
  cases hput
  have hseen := h.seen
  rw [hphase] at hseen
  refine ⟨.of_seen (h.args.put hargs) h.results h.targets ?_, rfl⟩
  dsimp only
  omega

theorem Staged.putResult {row : Nat} {value : Nat → Nat → Arena.Read F F} {a : Arena F}
    (h : f.Staged q r) (hphase : f.phase = .results) (hput : f.putResult row value a = .ok f') :
    f'.Staged q r ∧ f'.targets = f.targets.setIfInBounds f.seenResults row := by
  obtain ⟨results, hresults, hput⟩ := bind_eq_ok_iff.mp hput
  cases hput
  have hseen := h.seen
  rw [hphase] at hseen
  refine ⟨.of_seen h.args (h.results.put hresults)
    (Array.size_setIfInBounds.trans h.targets) ?_, rfl⟩
  dsimp only
  omega

end Frame

end Call

namespace Program

section Completion

variable {P : Program F} {f f' : Frame F} {q r : Nat} {ins : Instr} {l : List Instr}
variable {value : Nat → Nat → Arena.Read F F} {a : Arena F}

theorem completes_args (h : f.Staged q r) (hphase : f.phase = .args) :
    P.Completes (some f) (ins :: l) ↔ (∃ kind, ins.op = .callArg kind) ∧
      P.Closes f.header (f.argCount - (f.seenArgs + 1)) (f.resultCount - f.seenResults) l := by
  have hseen := h.seen
  rw [hphase] at hseen
  have hmissing : f.argCount - f.seenArgs = f.argCount - (f.seenArgs + 1) + 1 := by omega
  rw [Completes, hmissing, closes_arg]

theorem completes_results (h : f.Staged q r) (hphase : f.phase = .results) :
    P.Completes (some f) (ins :: l) ↔ (∃ kind, ins.op = .callResult kind) ∧
      P.Closes f.header (f.argCount - f.seenArgs) (f.resultCount - (f.seenResults + 1)) l := by
  have hseen := h.seen
  rw [hphase] at hseen
  have hnone : f.argCount - f.seenArgs = 0 := by omega
  have hmissing : f.resultCount - f.seenResults = f.resultCount - (f.seenResults + 1) + 1 := by
    omega
  rw [Completes, hnone, hmissing, closes_result]

theorem completes_finished (h : f.Staged q r) (hphase : f.phase = .finished) :
    P.Completes (some f) (ins :: l) ↔ P.Marks f.header ins ∧ P.Brackets l := by
  have hseen := h.seen
  rw [hphase] at hseen
  have hargs : f.argCount - f.seenArgs = 0 := by omega
  have hresults : f.resultCount - f.seenResults = 0 := by omega
  rw [Completes, hargs, hresults, closes_marker]

/-- What may follow an argument is what it may stand before. -/
theorem completes_putArg (h : f.Staged q r) (hphase : f.phase = .args)
    (hput : f.putArg value a = .ok f') :
    P.Completes (some f) (ins :: l) ↔ (∃ kind, ins.op = .callArg kind) ∧
      P.Completes (some f') l := by
  obtain ⟨args, -, hput⟩ := bind_eq_ok_iff.mp hput
  cases hput
  exact completes_args h hphase

theorem completes_putResult (h : f.Staged q r) (hphase : f.phase = .results) {row : Nat}
    (hput : f.putResult row value a = .ok f') :
    P.Completes (some f) (ins :: l) ↔ (∃ kind, ins.op = .callResult kind) ∧
      P.Completes (some f') l := by
  obtain ⟨results, -, hput⟩ := bind_eq_ok_iff.mp hput
  cases hput
  exact completes_results h hphase

/-- What is completed goes on with an instruction that its phase expects. -/
theorem expects_of_completes {fr : Option (Frame F)} (h : ∀ f, fr = some f → f.Staged q r)
    (hl : P.Completes fr (ins :: l)) : (Call.phase fr).Expects ins.op := by
  cases fr with
  | none => exact op_of_brackets hl
  | some f =>
    have hstaged := h f rfl
    show f.phase.Expects ins.op
    cases hphase : f.phase with
    | start => exact absurd hphase f.phase_ne_start
    | args => exact ((completes_args hstaged hphase).mp hl).1
    | results => exact ((completes_results hstaged hphase).mp hl).1
    | finished => exact ((completes_finished hstaged hphase).mp hl).1.op

end Completion

end Program

end JetTape
