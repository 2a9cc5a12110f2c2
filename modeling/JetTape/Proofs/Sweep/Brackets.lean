import JetTape.Proofs.Replay.Brackets
import JetTape.Proofs.Sweep.Inputs
import JetTape.Proofs.Sweep.Run

/-!
Sweeps accept the bracketed programs. If the instructions of a program are sound one by one and its
operators accept every request, a sweep without skipping comes to its end exactly when the call
instructions form whole blocks; otherwise it faults. All the while the frame of an open block is
staged, so the cells that it fills and reads are there.
-/
namespace JetTape

open Arena (Fits SameShape)
open Call (Frame)

variable {F : Type} [Scalar F]

/-- The operator accepts every request. -/
def Operator.Accepts (operator : Operator F) : Prop :=
  ∀ r, ∃ results, operator.forward r = .accept results

/-- What a sweep needs of an instruction after the independents by itself. The rows and parameters
that a call instruction reads exist, its marker describes the call of an operator that accepts every
request, and the update of any other instruction does not fault on an arena of the program's
shape. -/
inductive Program.Runs (P : Program F) (q : Nat) (resolved : Array Nat) : Instr → Prop where
  | marker {args : List Nat} {row : Nat} {site : CallSite F}
      (hsite : P.callSite args = .ok site) (haccepts : site.operator.Accepts) :
      P.Runs q resolved ⟨.callMarker, args, row⟩
  | rowArg {x row : Nat} {args : List Nat} (hx : x < P.rowCount) :
      P.Runs q resolved ⟨.callArg .var, x :: args, row⟩
  | constantArg {i row : Nat} {args : List Nat} (hi : i < P.params.size) :
      P.Runs q resolved ⟨.callArg .par, i :: args, row⟩
  | rowResult {row : Nat} {args : List Nat} (hrow : row < P.rowCount) :
      P.Runs q resolved ⟨.callResult .var, args, row⟩
  | constantResult {i row : Nat} {args : List Nat} (hi : i < P.params.size) :
      P.Runs q resolved ⟨.callResult .par, i :: args, row⟩
  | plain {ins : Instr} (hplain : ins.op.isPlain = true)
      (hrow : 0 < ins.op.resultCount → ins.row < P.rowCount)
      (hupdate : ∀ a : Arena F, a.Fits P.rowCount q →
        ∃ b, Recurrence.update q P.params resolved ins a = .ok () b) : P.Runs q resolved ins

/-- An instruction that is as a recorder leaves it runs. -/
theorem Program.runs_of_valid {P : Program F} {q n : Nat} {resolved : Array Nat} {ins : Instr}
    (hvalid : Instr.Valid n P.params.size resolved.size ins.op ins.args) (hpos : 0 < n)
    (hrow : ins.row + 1 = n + ins.op.resultCount) (hlt : ins.row < P.rowCount)
    (hbound : P.rowCount ≤ Index.argBound) (hargs : ins.args.length < Index.argBound)
    (hload : ∀ s, ins.op = .load s → Jet.loadedRow ins.args resolved < ins.row) :
    P.Runs q resolved ins := by
  refine .plain hvalid.isPlain (fun _ => hlt) fun a ha => ?_
  obtain ⟨b, hupdate, -⟩ :=
    Recurrence.along_update hvalid hpos hrow hlt hbound hargs hload a ha
  exact ⟨b, hupdate⟩

namespace Program.Runs

variable {P : Program F} {q : Nat} {resolved : Array Nat} {ins : Instr}

theorem op_ne (h : P.Runs q resolved ins) : ins.op ≠ .stop := by
  cases h with
  | plain hplain =>
    intro hop
    rw [hop] at hplain
    cases hplain
  | _ => exact nofun

/-- The coefficients that a trace reports are there. -/
theorem traced (h : P.Runs q resolved ins) :
    ins.op.resultCount = 0 ∨ ins.op = .callResult .var ∨ ins.row < P.rowCount := by
  cases h with
  | rowResult hrow => exact Or.inr (Or.inr hrow)
  | plain _ hrow =>
    rcases Nat.eq_zero_or_pos ins.op.resultCount with hzero | hpos
    · exact Or.inl hzero
    · exact Or.inr (Or.inr (hrow hpos))
  | _ => exact Or.inl rfl

end Program.Runs

/-- The program is a start and its independents, the listed instructions, and a `stop`. -/
structure Program.Is (P : Program F) (body : List Instr) : Prop where
  start : ∃ ins, P.instr 0 = .ok ins ∧ ins.op = .start
  independents : ∀ i, 1 ≤ i → i ≤ P.independentCount →
    ∃ ins, P.instr i = .ok ins ∧ ins.op = .independent
  holds : P.Holds (P.independentCount + 1) body
  stop : ∃ ins, P.instr (P.independentCount + 1 + body.length) = .ok ins ∧ ins.op = .stop
  size : P.instrCount = P.independentCount + 1 + body.length + 1
  bound : P.instrCount < Index.bound

/-- There is room for the series of every call. -/
def Program.HasRoom (P : Program F) (q r : Nat) (l : List Instr) : Prop :=
  ∀ ins ∈ l, ins.op = .callMarker → ∀ site, P.callSite ins.args = .ok site → site.Room q r

namespace Replay

variable {P : Program F} {q : Nat} {mask : Array Bool} {resolved : Array Nat} {options : Options}
variable {a : Arena F} {fr : Option (Frame F)} {requests : Array (Request F)} {ins : Instr}

/-- The arena fits the program, and a frame is staged for it and for its rows. -/
structure Ready (P : Program F) (q : Nat) (c : Core F) : Prop where
  fits : c.arena.Fits P.rowCount q
  frame : ∀ f, c.frame = some f → f.Staged q c.arena.layout.directions ∧
    ∀ v ∈ f.targets.toList, 0 < v → v < P.rowCount

/-- From a core the replay either goes on with a core from which the same may follow, or it faults,
and then nothing that begins with the instruction may follow unless there is no room for it. -/
inductive Reads (P : Program F) (q : Nat) (m : Replay F Unit) (ins : Instr) (c : Core F) :
    Prop where
  | goesOn {d : Core F} (hm : Leads m c (.ok ()) d) (hready : Ready P q d)
      (hlayout : d.arena.layout = c.arena.layout)
      (hcompletes : ∀ l, P.Completes c.frame (callsOf [ins] ++ l) ↔ P.Completes d.frame l)
  | faults {f : Fault} {d : Core F} (hm : Leads m c (.error (.fault f)) d)
      (hnot : P.HasRoom q c.arena.layout.directions [ins] →
        ∀ l, ¬ P.Completes c.frame (callsOf [ins] ++ l))

section Asking

variable (options a fr requests) {operator : Operator F}

theorem leads_ask_accepts (h : operator.Accepts) (f : Frame F) (l : Nat) :
    ∃ f' requests', Leads (ask options operator q f l) ⟨a, fr, requests⟩ (.ok f')
      ⟨a, fr, requests'⟩ ∧ f'.targets = f.targets := by
  obtain ⟨results, hresults⟩ := h ((f.turn q l).request q)
  refine ⟨(f.turn q l).answer q l results.toArray, requests.push ((f.turn q l).request q),
    (leads_request _).bind ?_, rfl⟩
  simp only [hresults]
  exact leads_pure _

/-- An operator that accepts every request is asked along all directions. -/
theorem leads_asks_accepts (h : operator.Accepts) (n l : Nat) (f : Frame F) :
    ∃ f' requests', Leads (Loop.fold n l (ask options operator q) f) ⟨a, fr, requests⟩ (.ok f')
      ⟨a, fr, requests'⟩ ∧ f'.targets = f.targets := by
  induction n generalizing l f requests with
  | zero => exact ⟨f, requests, leads_pure f, rfl⟩
  | succ n ih =>
    obtain ⟨f₁, requests₁, hask, htargets⟩ := leads_ask_accepts options a fr requests h f l
    obtain ⟨f₂, requests₂, hasks, htargets'⟩ := ih requests₁ (l + 1) f₁
    exact ⟨f₂, requests₂, hask.bind hasks, htargets'.trans htargets⟩

/-- Results are scattered to rows that exist. -/
theorem scatter_eq_ok {a : Arena F} {n : Nat} (ha : a.Fits n q) (answers : Arena F)
    {targets : List Nat} (htargets : ∀ v ∈ targets, 0 < v → v < n) :
    ∃ b, scatter q answers targets a = .ok () b ∧ SameShape a b := by
  suffices h : ∀ i, ∃ g, Arena.Along n q ((targets.zipIdx i).forM fun w =>
      if 0 < w.1 then Arena.assign w.1 q fun l => return answers.peek w.2 q l else pure ()) g by
    obtain ⟨g, hscatter⟩ := h 0
    obtain ⟨b, hb, hshape, -⟩ := hscatter a ha
    exact ⟨b, hb, hshape⟩
  induction targets with
  | nil => exact fun _ => ⟨_, Arena.along_pure⟩
  | cons v rest ih =>
    intro i
    obtain ⟨hv, hrest⟩ := List.forall_mem_cons.mp htargets
    obtain ⟨g, hg⟩ := ih hrest (i + 1)
    rw [List.zipIdx_cons]
    by_cases hpos : 0 < v
    · refine ⟨_, Arena.Along.bind (f := fun l j => j.set v q (answers.peek i q l)) ?_ hg⟩
      simp only [hpos, if_true]
      exact Arena.along_assign (hv hpos) fun _ _ _ _ => rfl
    · refine ⟨_, Arena.Along.bind (f := fun _ j => j) ?_ hg⟩
      simp only [hpos, if_false]
      exact Arena.along_pure

/-- A finished block closes at a marker that repeats its header. -/
theorem leads_closeCall_accepts {a : Arena F} {site : CallSite F} (h : site.operator.Accepts)
    {n : Nat} (ha : a.Fits n q) {f : Frame F} (htargets : ∀ v ∈ f.targets.toList, 0 < v → v < n)
    (hheader : site.header = f.header) :
    ∃ b requests', SameShape a b ∧
      Leads (closeCall options q f site) ⟨a, fr, requests⟩ (.ok ()) ⟨b, none, requests'⟩ := by
  obtain ⟨f', requests', hasks, hsame⟩ :=
    leads_asks_accepts options a none requests h a.layout.directions 0 f
  obtain ⟨b, hscatter, hshape⟩ := scatter_eq_ok ha f'.results.all (hsame ▸ htargets)
  exact ⟨b, requests', hshape, leads_closeCall_of_checked options fr requests
    (Frame.checkClosing_eq_ok_iff.mpr hheader) (hasks.bind (leads_update hscatter))⟩

end Asking

section Reading

omit [Scalar F] in
theorem callsOf_cons (ins : Instr) (l : List Instr) :
    callsOf (ins :: l) = callsOf [ins] ++ callsOf l :=
  List.filter_append [ins] l

/-- An instruction outside call blocks changes nothing about what may follow. -/
theorem reads_plain {i : Nat} {c : Core F} (hready : Ready P q c) (hplain : ins.op.isPlain = true)
    (hupdate : ∀ a : Arena F, a.Fits P.rowCount q →
      ∃ b, Recurrence.update q P.params resolved ins a = .ok () b) :
    Reads P q (step P q resolved options i ins) ins c := by
  obtain ⟨a, fr, requests⟩ := c
  obtain ⟨b, hb⟩ := hupdate a hready.fits
  have hshape : SameShape a b := by
    have hwrites : Arena.Writes q ins.Owns (Recurrence.update q P.params resolved ins) :=
      Recurrence.writes_update
    have hleft := hwrites a
    rw [Arena.Update.left, hb] at hleft
    exact hleft.toSameShape
  have hcall : ins.op.isCall = false := by
    cases hop : ins.op <;> first | rfl | (rw [hop] at hplain; cases hplain)
  refine .goesOn (d := ⟨b, fr, requests⟩) ?_ ⟨hshape.fits hready.fits, ?_⟩ hshape.layout
    fun l => ?_
  · rw [step_eq_update hplain]
    exact leads_update hb
  · intro f hf
    obtain ⟨hstaged, htargets⟩ := hready.frame f hf
    exact ⟨hshape.layout ▸ hstaged, htargets⟩
  · rw [callsOf, List.filter_cons_of_neg (by simp [hcall])]
    rfl

omit [Scalar F] in
theorem callsOf_singleton (h : ins.op.isCall = true) (l : List Instr) :
    callsOf [ins] ++ l = ins :: l := by
  rw [callsOf, List.filter_singleton, h]
  rfl

/-- A computation that only reads before it goes on. -/
theorem Reads.ok_bind {α : Type} {m : Except Fault α} {k : α → Replay F Unit} {x : α} {c : Core F}
    (hm : m = .ok x) (h : Reads P q (k x) ins c) : Reads P q (liftM m >>= k) ins c := by
  cases h with
  | goesOn hk hready hlayout hcompletes =>
    exact .goesOn ((leads_ok hm).bind hk) hready hlayout hcompletes
  | faults hk hnot => exact .faults ((leads_ok hm).bind hk) hnot

section CallInstr

variable {c : Core F}

omit [Scalar F] in
theorem leads_takeArg_outside {value : Nat → Nat → Arena.Read F F}
    (hphase : Call.phase c.frame ≠ .args) :
    Leads (takeArg value) c (.error (.fault (.argOutside (Call.phase c.frame)))) c := by
  apply Leads.get
  intro s hs
  have hframe : s.frame = c.frame := congrArg Core.frame hs
  rw [hframe]
  cases hfr : c.frame with
  | none => exact leads_throw _
  | some f =>
    rw [hfr] at hphase
    exact (leads_fault (if_neg hphase)).bind_error

omit [Scalar F] in
theorem leads_takeResult_outside {row : Nat} {value : Nat → Nat → Arena.Read F F}
    (hphase : Call.phase c.frame ≠ .results) :
    Leads (takeResult row value) c (.error (.fault (.resultOutside (Call.phase c.frame)))) c := by
  apply Leads.get
  intro s hs
  have hframe : s.frame = c.frame := congrArg Core.frame hs
  rw [hframe]
  cases hfr : c.frame with
  | none => exact leads_throw _
  | some f =>
    rw [hfr] at hphase
    exact (leads_fault (if_neg hphase)).bind_error

/-- Inside an open block that is not finished a marker faults. -/
theorem leads_marker_inside (options : Options) (q : Nat) (site : CallSite F)
    (hphase : ¬ (Call.phase c.frame = .start ∨ Call.phase c.frame = .finished)) :
    ∃ f, Leads (marker options q site) c (.error (.fault f)) c := by
  cases hfr : c.frame with
  | none =>
    rw [hfr] at hphase
    exact absurd (Or.inl rfl) hphase
  | some f =>
    rw [hfr, not_or] at hphase
    refine ⟨.markerInside site.operator.name f.phase f.seenArgs f.argCount f.seenResults
      f.resultCount, Leads.get fun s hs => ?_⟩
    have hframe : s.frame = some f := (congrArg Core.frame hs).trans hfr
    rw [hframe]
    cases hnow : f.phase with
    | finished => exact absurd hnow hphase.2
    | start | args | results =>
      simp only [hnow]
      exact leads_throw _

variable (hready : Ready P q c)

include hready

omit [Scalar F] in
theorem Ready.expects {l : List Instr} (hcall : ins.op.isCall = true)
    (h : P.Completes c.frame (callsOf [ins] ++ l)) : (Call.phase c.frame).Expects ins.op := by
  rw [callsOf_singleton hcall] at h
  exact Program.expects_of_completes (fun f hf => (hready.frame f hf).1) h

/-- An argument is taken while arguments are missing. -/
theorem reads_takeArg {kind : Source} (hop : ins.op = .callArg kind)
    {value : Nat → Nat → Arena.Read F F} {g : Nat → Nat → F}
    (hvalue : ∀ k ≤ q, ∀ l < c.arena.layout.directions, value k l c.arena = .ok (g k l)) :
    Reads P q (takeArg value) ins c := by
  have hcall : ins.op.isCall = true := by rw [hop]; rfl
  by_cases hphase : Call.phase c.frame = .args
  · obtain ⟨a, fr, requests⟩ := c
    cases fr with
    | none => cases hphase
    | some f =>
      obtain ⟨hstaged, htargets⟩ := hready.frame f rfl
      obtain ⟨f', hput⟩ : ∃ f', f.putArg value a = .ok f' :=
        ⟨_, bind_eq_ok_iff.mpr
          ⟨_, hstaged.args.put_eq_fill hready.fits.directed hvalue, rfl⟩⟩
      obtain ⟨hstaged', hsame⟩ := hstaged.putArg hphase hput
      refine .goesOn (leads_takeArg requests hphase hput) ⟨hready.fits, ?_⟩ rfl fun l => ?_
      · rintro _ ⟨⟩
        exact ⟨hstaged', hsame ▸ htargets⟩
      · rw [callsOf_singleton hcall, Program.completes_putArg hstaged hphase hput]
        exact and_iff_right ⟨kind, hop⟩
  · refine .faults (leads_takeArg_outside hphase) fun _ l h => hphase ?_
    have hexpects := hready.expects hcall h
    rw [hop] at hexpects
    exact Call.Phase.expects_arg.mp hexpects

/-- A result is taken while results, but no arguments, are missing. -/
theorem reads_takeResult {kind : Source} (hop : ins.op = .callResult kind) {row : Nat}
    (hrow : 0 < row → row < P.rowCount) {value : Nat → Nat → Arena.Read F F} {g : Nat → Nat → F}
    (hvalue : ∀ k ≤ q, ∀ l < c.arena.layout.directions, value k l c.arena = .ok (g k l)) :
    Reads P q (takeResult row value) ins c := by
  have hcall : ins.op.isCall = true := by rw [hop]; rfl
  by_cases hphase : Call.phase c.frame = .results
  · obtain ⟨a, fr, requests⟩ := c
    cases fr with
    | none => cases hphase
    | some f =>
      obtain ⟨hstaged, htargets⟩ := hready.frame f rfl
      obtain ⟨f', hput⟩ : ∃ f', f.putResult row value a = .ok f' :=
        ⟨_, bind_eq_ok_iff.mpr
          ⟨_, hstaged.results.put_eq_fill hready.fits.directed hvalue, rfl⟩⟩
      obtain ⟨hstaged', htargets'⟩ := hstaged.putResult hphase hput
      refine .goesOn (leads_takeResult requests hphase hput) ⟨hready.fits, ?_⟩ rfl fun l => ?_
      · rintro _ ⟨⟩
        refine ⟨hstaged', ?_⟩
        rw [htargets', Array.toList_setIfInBounds]
        intro v hv
        rcases List.mem_or_eq_of_mem_set hv with hv | rfl
        · exact htargets v hv
        · exact hrow
      · rw [callsOf_singleton hcall, Program.completes_putResult hstaged hphase hput]
        exact and_iff_right ⟨kind, hop⟩
  · refine .faults (leads_takeResult_outside hphase) fun _ l h => hphase ?_
    have hexpects := hready.expects hcall h
    rw [hop] at hexpects
    exact Call.Phase.expects_result.mp hexpects

/-- Between blocks a marker opens one, unless there is no room for it. -/
theorem reads_opening (hop : ins.op = .callMarker) {site : CallSite F}
    (hsite : P.callSite ins.args = .ok site) (hframe : c.frame = none) :
    Reads P q (marker options q site) ins c := by
  obtain ⟨a, fr, requests⟩ := c
  obtain rfl : fr = none := hframe
  cases hnew : Frame.new site q a.layout.directions with
  | ok f =>
    obtain rfl := Frame.eq_of_new hnew
    refine .goesOn (leads_open options requests hnew) ⟨hready.fits, ?_⟩ rfl fun l => ?_
    · rintro _ ⟨⟩
      refine ⟨Frame.staged_opened site q _, fun v hv hpos => ?_⟩
      rw [Frame.opened, Array.toList_replicate] at hv
      exact absurd hpos (by rw [List.eq_of_mem_replicate hv]; exact Nat.lt_irrefl 0)
    · rw [callsOf_singleton (by rw [hop]; rfl)]
      exact (Program.brackets_cons hsite).trans (and_iff_right hop)
  | error fault =>
    refine .faults (leads_open_fault options requests hnew) fun hroom l => ?_
    have hspace := hroom ins (List.mem_singleton_self ins) hop site hsite
    cases hnew.symm.trans (hspace.new_eq hready.fits.directed)

/-- A finished block is closed by a marker that repeats its header. -/
theorem reads_closing (hop : ins.op = .callMarker) {site : CallSite F}
    (hsite : P.callSite ins.args = .ok site) (haccepts : site.operator.Accepts) {f : Frame F}
    (hframe : c.frame = some f) (hphase : f.phase = .finished) :
    Reads P q (marker options q site) ins c := by
  obtain ⟨a, fr, requests⟩ := c
  obtain rfl : fr = some f := hframe
  obtain ⟨hstaged, htargets⟩ := hready.frame f rfl
  have hcompletes (l : List Instr) : P.Completes (some f) (callsOf [ins] ++ l) ↔
      P.Marks f.header ins ∧ P.Brackets l := by
    rw [callsOf_singleton (by rw [hop]; rfl)]
    exact Program.completes_finished hstaged hphase
  by_cases hheader : site.header = f.header
  · obtain ⟨b, requests', hshape, hclose⟩ := leads_closeCall_accepts options
      (some f) requests haccepts hready.fits htargets hheader
    refine .goesOn (leads_close options requests hphase hclose)
      ⟨hshape.fits hready.fits, nofun⟩ hshape.layout fun l => (hcompletes l).trans ?_
    exact and_iff_right ⟨hop, site, hsite, hheader⟩
  · obtain ⟨fault, hfault⟩ : ∃ fault, f.checkClosing site = .error fault := by
      cases hcheck : f.checkClosing site with
      | ok u => exact absurd (Frame.checkClosing_eq_ok_iff.mp hcheck) hheader
      | error fault => exact ⟨fault, rfl⟩
    refine .faults (leads_close options requests hphase
      (leads_fault hfault).bind_error) fun _ l h => ?_
    obtain ⟨⟨-, site', hsite', hheader'⟩, -⟩ := (hcompletes l).mp h
    rw [hsite] at hsite'
    cases hsite'
    exact hheader hheader'

theorem reads_marker (hop : ins.op = .callMarker) {site : CallSite F}
    (hsite : P.callSite ins.args = .ok site) (haccepts : site.operator.Accepts) :
    Reads P q (marker options q site) ins c := by
  by_cases hphase : Call.phase c.frame = .start ∨ Call.phase c.frame = .finished
  · cases hframe : c.frame with
    | none => exact reads_opening hready hop hsite hframe
    | some f =>
      rw [hframe] at hphase
      exact reads_closing hready hop hsite haccepts hframe
        (hphase.resolve_left f.phase_ne_start)
  · obtain ⟨fault, hfault⟩ := leads_marker_inside options q site hphase
    refine .faults hfault fun _ l h => hphase ?_
    have hexpects := hready.expects (by rw [hop]; rfl) h
    rw [hop] at hexpects
    exact Call.Phase.expects_marker.mp hexpects

/-- Every instruction that runs is read. -/
theorem reads_step (options : Options) (i : Nat) (hruns : P.Runs q resolved ins) :
    Reads P q (step P q resolved options i ins) ins c := by
  cases hruns with
  | marker hsite haccepts => exact .ok_bind hsite (reads_marker hready rfl hsite haccepts)
  | rowArg hx =>
    exact .ok_bind rfl (reads_takeArg hready rfl fun k hk l hl => hready.fits.coeff_eq hl hx hk)
  | constantArg hi =>
    exact .ok_bind rfl (.ok_bind (Index.get_eq_ok_iff.mpr (Array.getElem?_eq_getElem hi))
      (reads_takeArg hready rfl fun _ _ _ _ => rfl))
  | rowResult hrow =>
    exact reads_takeResult hready rfl (fun _ => hrow)
      fun k hk l hl => hready.fits.coeff_eq hl hrow hk
  | constantResult hi =>
    exact .ok_bind rfl (.ok_bind (Index.get_eq_ok_iff.mpr (Array.getElem?_eq_getElem hi))
      (reads_takeResult hready rfl (fun h => absurd h (Nat.lt_irrefl 0)) fun _ _ _ _ => rfl))
  | plain hplain _ hupdate => exact reads_plain hready hplain hupdate

end CallInstr

/-- A block that is open at the `stop` is a fault. -/
theorem leads_replayFrom_open {i : Nat} {c : Core F} (hnext : Cursor.next P mask i = .ok i)
    (hins : P.instr i = .ok ins) (hop : ins.op = .stop) (hphase : Call.phase c.frame ≠ .start) :
    Leads (replayFrom P q mask resolved options i) c
      (.error (.fault (.callOpenAtStop (Call.phase c.frame)))) c := by
  rw [replayFrom_eq hnext]
  apply (leads_reportSkipped options i i).bind
  apply (leads_ok hins).bind
  rw [if_pos hop]
  apply Leads.get
  intro s hs
  have hframe : s.frame = c.frame := congrArg Core.frame hs
  rw [hframe]
  exact leads_fault (if_neg hphase)

/-- The replay of the rest of a program comes to its end if the rest completes what has been read
and there is room for it. If it does not complete that, the replay faults. By induction on the
rest: an instruction that is read leaves the same question about what comes after it. -/
theorem leads_replayFrom_calls (options : Options) {l : List Instr} {stop : Instr}
    (hstop : stop.op = .stop) (hruns : ∀ ins ∈ l, P.Runs q resolved ins) {i : Nat} {c : Core F}
    (hready : Ready P q c) (hholds : P.Holds i (l ++ [stop]))
    (hmask : ∀ k ≤ l.length, mask[i + k]? = some false) :
    (P.HasRoom q c.arena.layout.directions l → P.Completes c.frame (callsOf l) →
      ∃ c', Leads (replayFrom P q mask resolved options i) c (.ok ()) c') ∧
    (¬ P.Completes c.frame (callsOf l) →
      ∃ f c', Leads (replayFrom P q mask resolved options i) c (.error (.fault f)) c') := by
  induction l generalizing i c with
  | nil =>
    have hins : P.instr i = .ok stop := (Program.holds_cons.mp hholds).1
    have hnext : Cursor.next P mask i = .ok i := Cursor.next_of_unmarked (hmask 0 (Nat.le_refl 0))
    obtain ⟨a, fr, requests⟩ := c
    cases fr with
    | none => exact ⟨fun _ _ => ⟨_, leads_replayFrom_stop hnext hins hstop rfl⟩,
        fun hnot => absurd .nil hnot⟩
    | some f => exact ⟨fun _ hl => absurd hl Program.not_closes_nil,
        fun _ => ⟨_, _, leads_replayFrom_open hnext hins hstop f.phase_ne_start⟩⟩
  | cons ins l ih =>
    rw [List.cons_append] at hholds
    obtain ⟨hins, hrest⟩ := Program.holds_cons.mp hholds
    obtain ⟨hfirst, hruns⟩ := List.forall_mem_cons.mp hruns
    have hnext : Cursor.next P mask i = .ok i :=
      Cursor.next_of_unmarked (hmask 0 (Nat.zero_le _))
    have hlater (k : Nat) (hk : k ≤ l.length) : mask[i + 1 + k]? = some false := by
      have := hmask (k + 1) (Nat.succ_le_succ hk)
      rwa [Nat.add_comm k, ← Nat.add_assoc] at this
    rw [callsOf_cons]
    cases reads_step hready options i hfirst with
    | @goesOn c' hm hready' hlayout hcompletes =>
      rw [hcompletes]
      have htrace : Leads (trace options q i ins) c' (.ok ()) c' :=
        leads_trace options c'.frame c'.requests hready'.fits hfirst.traced
      have hreaches := reaches_next hnext hins hfirst.op_ne hm htrace
      obtain ⟨hends, hfaults⟩ := ih hruns hready' hrest hlater
      constructor
      · intro hroom hl
        rw [← hlayout] at hroom
        obtain ⟨c'', hend⟩ := hends (fun i hi => hroom i (List.mem_cons_of_mem ins hi)) hl
        exact ⟨c'', hreaches.leads hend⟩
      · intro hl
        obtain ⟨f, c'', hend⟩ := hfaults hl
        exact ⟨f, c'', hreaches.leads hend⟩
    | @faults f c' hm hnot =>
      constructor
      · intro hroom hl
        exact absurd hl (hnot (fun i hi => hroom i (List.mem_cons.mpr
          (Or.inl (List.mem_singleton.mp hi)))) _)
      · exact fun _ => ⟨f, c', leads_replayFrom_error hnext hins hfirst.op_ne hm⟩

end Reading

section Stations

/-- If a frame is open, it is staged at order `q` over `r` directions. -/
def StagedAt (q r : Nat) (s : ReplayState F) : Prop := ∀ f, s.frame = some f → f.Staged q r

theorem ends_marker_staged {s : ReplayState F} {site : CallSite F} :
    Ends (marker options q site) s
      (fun _ s' => StagedAt q s.arena.layout.directions s') fun _ => True := by
  refine .get ?_
  cases s.frame with
  | none =>
    refine .read_bind trivial fun r hr => .ok_bind trivial fun f hnew => ?_
    obtain rfl : s.arena.layout.directions = r := Except.ok.inj hr
    obtain rfl := Frame.eq_of_new hnew
    rintro _ ⟨⟩
    exact Frame.staged_opened site q _
  | some f =>
    cases hphase : f.phase with
    | start | args | results =>
      simp only [hphase]
      exact .throw trivial
    | finished =>
      simp only [hphase]
      refine ends_closeCall.imp ?_ fun _ _ => trivial
      rintro _ s' ⟨-, hclosed⟩ f' hf'
      rw [hclosed] at hf'
      cases hf'

omit [Scalar F] in
theorem ends_takeArg_staged {r : Nat} {s : ReplayState F} (hs : StagedAt q r s)
    {value : Nat → Nat → Arena.Read F F} :
    Ends (takeArg value) s (fun _ s' => StagedAt q r s') fun _ => True := by
  refine .get ?_
  cases hframe : s.frame with
  | none => exact .throw trivial
  | some f =>
    refine .ok_bind trivial fun _ hphase => .read_bind trivial fun f' hput => ?_
    rintro _ ⟨⟩
    exact ((hs f hframe).putArg (require_eq_ok_iff.mp hphase) hput).1

omit [Scalar F] in
theorem ends_takeResult_staged {r : Nat} {s : ReplayState F} (hs : StagedAt q r s) {row : Nat}
    {value : Nat → Nat → Arena.Read F F} :
    Ends (takeResult row value) s (fun _ s' => StagedAt q r s') fun _ => True := by
  refine .get ?_
  cases hframe : s.frame with
  | none => exact .throw trivial
  | some f =>
    refine .ok_bind trivial fun _ hphase => .read_bind trivial fun f' hput => ?_
    rintro _ ⟨⟩
    exact ((hs f hframe).putResult (require_eq_ok_iff.mp hphase) hput).1

/-- A step leaves an open frame staged. -/
theorem ends_step_staged {i : Nat} {s : ReplayState F}
    (hs : StagedAt q s.arena.layout.directions s) :
    Ends (step P q resolved options i ins) s
      (fun _ s' => StagedAt q s.arena.layout.directions s') fun _ => True := by
  have hplain : Ends (liftM (Recurrence.update q P.params resolved ins) : Replay F Unit) s
      (fun _ s' => StagedAt q s.arena.layout.directions s') fun _ => True :=
    .update (fun _ => hs) trivial
  obtain ⟨op, args, row⟩ := ins
  cases op with
  | start | independent => exact .throw trivial
  | callMarker => exact .ok_bind trivial fun site _ => ends_marker_staged
  | callArg kind =>
    cases kind with
    | var => exact .ok_bind trivial fun _ _ => ends_takeArg_staged hs
    | par =>
      exact .ok_bind trivial fun _ _ => .ok_bind trivial fun _ _ => ends_takeArg_staged hs
  | callResult kind =>
    cases kind with
    | var => exact ends_takeResult_staged hs
    | par =>
      exact .ok_bind trivial fun _ _ => .ok_bind trivial fun _ _ => ends_takeResult_staged hs
  | _ => exact hplain

/-- At every station of a replay an open frame is staged. -/
theorem staged_of_mem_stationsFrom {i j : Nat} {s s' : ReplayState F}
    (hs : StagedAt q s.arena.layout.directions s)
    (h : (j, s') ∈ stationsFrom P q mask resolved options i s) :
    StagedAt q s.arena.layout.directions s' := by
  induction i, s using replay_induct mask with
  | h i s ih =>
    have hpassage := passage P q mask resolved options i s
    generalize replayFrom P q mask resolved options i s = out at hpassage
    generalize stationsFrom P q mask resolved options i s = list at hpassage h
    cases hpassage with
    | lost => cases h
    | unread | stops | halts =>
      cases List.mem_singleton.mp h
      exact hs
    | @goesOn j' events ins s₁ hstands hins hop hstep =>
      rcases List.mem_cons.mp h with h | h
      · cases h
        exact hs
      · have hlayout : s₁.arena.layout = s.arena.layout := (stepped_of_stepAt hstep).within.layout
        have hends : Ends (stepAt P q resolved options j' ins) { s with events }
            (fun _ s' => StagedAt q s.arena.layout.directions s') fun _ => True := by
          refine (ends_step_staged (s := { s with events }) hs).bind fun _ s₂ hs₂ => ?_
          refine ends_trace.imp ?_ fun _ _ => trivial
          rintro _ s₃ ⟨-, hframe⟩ f hf
          exact hs₂ f (hframe ▸ hf)
        rw [Ends, hstep] at hends
        rw [← hlayout] at hends ⊢
        exact ih _ _ hstands.le (Cursor.lt_size_of_next hstands.next) hends h

end Stations

/-- If the instructions of a program are sound one by one and its operators accept every request, a
sweep without skipping comes to its end exactly when the call instructions of the program form
whole blocks, given room for their series; if they do not form whole blocks, it faults. At every
station of every sweep either no block is open or the frame of the open one is staged, so that every
series it has yet to take in or to hand over has its cells. -/
theorem sweep_brackets {P : Program F} {body : List Instr} {q : Nat} {resolved : Array Nat}
    {a : Arena F} (hP : P.Is body) (hruns : ∀ ins ∈ body, P.Runs q resolved ins)
    (ha : a.Shaped P.rowCount) (hpos : 1 ≤ q) (hcap : q < a.layout.capOrder)
    (hresolved : resolved.size = P.loadCount) (options : Options) :
    let r := a.layout.directions
    let run := (sweep P q (Array.replicate P.instrCount false) resolved options).run a
    (P.HasRoom q r body → (run.stop = none ↔ P.Brackets (callsOf body))) ∧
    (¬ P.Brackets (callsOf body) → ∃ f, run.stop = some (.fault f)) ∧
    ∀ mask options, ∀ station ∈ stations P q mask resolved options a,
      Call.phase station.2.frame = .start ∨ ∃ f, station.2.frame = some f ∧ f.Staged q r ∧
        (∀ j < f.argCount, f.args.Covers q r j) ∧
        ∀ i < f.resultCount, f.results.Covers q r i ∧ i < f.targets.size := by
  intro r run
  obtain ⟨stop, hstop, hop⟩ := hP.stop
  have hfits : a.Fits P.rowCount q := ⟨ha, hpos, hcap⟩
  have hholds : P.Holds (P.independentCount + 1) (body ++ [stop]) :=
    Program.holds_append.mpr ⟨hP.holds, Program.holds_cons.mpr ⟨hstop, nofun⟩⟩
  have hmask (k : Nat) (hk : k ≤ body.length) :
      (Array.replicate P.instrCount false)[P.independentCount + 1 + k]? = some false := by
    rw [Array.getElem?_replicate, if_pos (by rw [hP.size]; omega)]
  -- The head of the program leads to its body, which is then read from an empty state.
  have hrun (out : Option Stop) {c : Core F}
      (h : Leads (replayFrom P q (Array.replicate P.instrCount false) resolved options
        (P.independentCount + 1)) ⟨a, none, #[]⟩ (ended out) c) : run.stop = out := by
    refine (run_of_leads (c := c) ?_).1
    apply Leads.get
    intro s hs
    have harena : s.arena = a := congrArg Core.arena hs
    rw [harena]
    apply (leads_ok (ha.checkShapes_eq_ok_iff.mpr ⟨hfits, Array.size_replicate, hresolved⟩)).bind
    apply (leads_ok (checkHead_eq_ok hP.start hP.independents)).bind
    apply (leads_report options _).bind
    apply (leads_ok ha.ofCells_eq).bind
    apply leads_setFrame.bind
    have hsize := hP.size
    have hbound := hP.bound
    exact (leads_ok (Index.add_eq_ok_iff.mpr ⟨by omega, rfl⟩)).bind h
  obtain ⟨hends, hfaults⟩ := leads_replayFrom_calls options hop hruns
    (c := ⟨a, none, #[]⟩) ⟨hfits, nofun⟩ hholds hmask
  have hnot : ¬ P.Brackets (callsOf body) → ∃ f, run.stop = some (.fault f) := by
    intro hbody
    obtain ⟨f, c, hleads⟩ := hfaults hbody
    exact ⟨f, hrun (some (.fault f)) hleads⟩
  refine ⟨fun hroom => ⟨fun hnone => ?_, fun hbody => ?_⟩, hnot, ?_⟩
  · by_contra hbody
    obtain ⟨f, hf⟩ := hnot hbody
    cases hnone.symm.trans hf
  · obtain ⟨c, hleads⟩ := hends hroom hbody
    exact hrun none hleads
  · rintro mask options ⟨j, s⟩ hmem
    obtain ⟨-, events, hmem⟩ := mem_stationsFrom_of_mem_stations hmem
    have hstaged := staged_of_mem_stationsFrom (s := ⟨a, none, #[], events⟩) nofun hmem
    cases hframe : s.frame with
    | none => exact Or.inl rfl
    | some f =>
      have hf := hstaged f hframe
      exact Or.inr ⟨f, rfl, hf, fun _ hj => hf.args.covers hj,
        fun i hi => ⟨hf.results.covers hi, hf.targets.symm ▸ hi⟩⟩

/-- A program with one independent and four rows over one operator. -/
def echoProgram (body : List Instr) : Program ℚ :=
  let instrs : List Instr := ⟨.start, [0], 0⟩ :: ⟨.independent, [], 1⟩ :: (body ++ [⟨.stop, [], 3⟩])
  .ofInstrs instrs.toArray 4 1 0 #[] #[.echo]

/-- A call with a sum between its argument and its result, and an empty call. -/
def bracketedBody : List Instr :=
  [⟨.callMarker, [0, 7, 1, 1], 1⟩, ⟨.callArg .var, [1], 1⟩, ⟨.arithmetic .addVV, [1, 1], 2⟩,
    ⟨.callResult .var, [], 3⟩, ⟨.callMarker, [0, 7, 1, 1], 3⟩, ⟨.callMarker, [0, 8, 0, 0], 3⟩,
    ⟨.callMarker, [0, 8, 0, 0], 3⟩]

/-- A call whose argument is missing. -/
def unbracketedBody : List Instr :=
  [⟨.callMarker, [0, 7, 1, 1], 1⟩, ⟨.arithmetic .addVV, [1, 1], 2⟩, ⟨.callResult .var, [], 3⟩,
    ⟨.callMarker, [0, 7, 1, 1], 3⟩]

theorem echoProgram_is {body : List Instr} (hlength : body.length < 100) :
    (echoProgram body).Is body where
  start := ⟨_, rfl, rfl⟩
  independents i hi hle := by
    obtain rfl : i = 1 := Nat.le_antisymm hle hi
    exact ⟨_, rfl, rfl⟩
  holds k hk := by
    have hget : (echoProgram body).instr (k + 2) = .ok body[k] := by
      simp [echoProgram, Program.ofInstrs, Index.get, hk]
      omega
    rwa [Nat.add_comm] at hget
  stop := by
    refine ⟨⟨.stop, [], 3⟩, ?_, rfl⟩
    have hget : (echoProgram body).instr (body.length + 2) = .ok ⟨.stop, [], 3⟩ := by
      simp [echoProgram, Program.ofInstrs, Index.get]
    rwa [Nat.add_comm] at hget
  size := by
    simp only [echoProgram, Program.ofInstrs, List.size_toArray, List.length_append,
      List.length_cons, List.length_nil]
    omega
  bound := by
    simp only [echoProgram, Program.ofInstrs, List.size_toArray, List.length_append,
      List.length_cons, List.length_nil, Index.bound]
    omega

theorem echo_accepts : (Operator.echo : Operator ℚ).Accepts := fun r => ⟨⟨r.results, rfl⟩, rfl⟩

/-- The first body is swept to its end, the second one faults. -/
theorem echoProgram_sweep_brackets :
    let a : Arena ℚ := ⟨⟨2, 2⟩, #[0, 0, 0, 5, 1, 7, 10, 4, 9, 2, 3, 8]⟩
    let P := echoProgram bracketedBody
    let P' := echoProgram unbracketedBody
    let run := (sweep P 1 (Array.replicate P.instrCount false) #[] {}).run a
    let run' := (sweep P' 1 (Array.replicate P'.instrCount false) #[] {}).run a
    run.stop = none ∧ run.requests.size = 4 ∧ ∃ f, run'.stop = some (.fault f) := by
  intro a P P' run run'
  have ha : a.Shaped 4 := ⟨by decide, by decide⟩
  have hmarker (body : List Instr) (args : List Nat) (row : Nat) {site : CallSite ℚ}
      (h : CallSite.ofArgs #[Operator.echo] args = .ok site) (hop : site.operator = .echo) :
      (echoProgram body).Runs 1 #[] ⟨.callMarker, args, row⟩ :=
    .marker h (hop ▸ echo_accepts)
  have hsum (body : List Instr) : (echoProgram body).Runs 1 #[] ⟨.arithmetic .addVV, [1, 1], 2⟩ :=
    have hx : Source.Valid 2 0 .var 1 := ⟨Nat.one_pos, Nat.one_lt_two⟩
    Program.runs_of_valid (.arithmetic .addVV rfl hx hx) Nat.two_pos rfl
      (Nat.lt_of_sub_pos Nat.two_pos) (by decide : 4 ≤ Index.argBound) (by decide) nofun
  have hresult (body : List Instr) : (echoProgram body).Runs 1 #[] ⟨.callResult .var, [], 3⟩ :=
    .rowResult (Nat.lt_succ_self 3)
  have hruns : ∀ ins ∈ bracketedBody, P.Runs 1 #[] ins := by
    simp only [bracketedBody, List.forall_mem_cons]
    exact ⟨hmarker _ _ _ rfl rfl, .rowArg (by decide), hsum _, hresult _, hmarker _ _ _ rfl rfl,
      hmarker _ _ _ rfl rfl, hmarker _ _ _ rfl rfl, nofun⟩
  have hruns' : ∀ ins ∈ unbracketedBody, P'.Runs 1 #[] ins := by
    simp only [unbracketedBody, List.forall_mem_cons]
    exact ⟨hmarker _ _ _ rfl rfl, hsum _, hresult _, hmarker _ _ _ rfl rfl, nofun⟩
  obtain ⟨hiff, -⟩ := sweep_brackets (echoProgram_is (by decide)) hruns ha (by decide)
    (by decide) rfl {}
  obtain ⟨-, hfaults, -⟩ := sweep_brackets (echoProgram_is (by decide)) hruns' ha (by decide)
    (by decide) rfl {}
  refine ⟨(hiff ?_).mpr ?_, by decide +kernel, hfaults fun hbrackets => ?_⟩
  · have hroom {args : List Nat} {site : CallSite ℚ}
        (h : CallSite.ofArgs #[Operator.echo] args = .ok site) (hspace : site.Room 1 2) :
        ∀ site, P.callSite args = .ok site → site.Room 1 2 := by
      intro site' hsite'
      cases h.symm.trans hsite'
      exact hspace
    simp only [Program.HasRoom, bracketedBody, List.forall_mem_cons]
    exact ⟨fun _ => hroom rfl ⟨rfl, rfl⟩, nofun, nofun, nofun, fun _ => hroom rfl ⟨rfl, rfl⟩,
      fun _ => hroom rfl ⟨rfl, rfl⟩, fun _ => hroom rfl ⟨rfl, rfl⟩, nofun⟩
  · refine (Program.brackets_cons rfl).mpr ⟨rfl, Program.closes_arg.mpr ⟨⟨_, rfl⟩, ?_⟩⟩
    refine Program.closes_result.mpr ⟨⟨_, rfl⟩, Program.closes_marker.mpr ⟨⟨rfl, _, rfl, rfl⟩, ?_⟩⟩
    refine (Program.brackets_cons rfl).mpr ⟨rfl, Program.closes_marker.mpr ⟨?_, .nil⟩⟩
    exact ⟨rfl, _, rfl, rfl⟩
  · obtain ⟨-, hcloses⟩ := (Program.brackets_cons rfl).mp hbrackets
    obtain ⟨⟨_, hop⟩, -⟩ := Program.closes_arg.mp hcloses
    cases hop

end Replay

end JetTape
