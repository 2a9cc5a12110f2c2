import JetTape.Proofs.Replay.Gather
import JetTape.Proofs.Replay.Leads

/-!
Call blocks in a replay. Between its markers a block takes in its arguments and its results; its
closing marker asks the operator along one direction after another. All of it together is
`Plan.replayItem`.
-/
namespace JetTape

open Arena (Fits SameShape)
open Call (Frame)

variable {F : Type}

theorem Index.reserveEach_eq_ok_iff {n k size : Nat} :
    Index.reserveEach n k size = .ok () ↔
      n * k < Index.bound ∧ n * k * size < 0x8000000000000000 := by
  simp only [Index.reserveEach, bind_eq_ok_iff, Index.mul_eq_ok_iff, Index.reserve]
  constructor
  · rintro ⟨_, ⟨hlt, rfl⟩, h⟩
    split at h
    · exact ⟨hlt, ‹_›⟩
    · cases h
  · rintro ⟨hlt, h⟩
    exact ⟨_, ⟨hlt, rfl⟩, if_pos h⟩

theorem Index.reserveEach_mono {n k k' size : Nat} (h : Index.reserveEach n k size = .ok ())
    (hk : k' ≤ k) : Index.reserveEach n k' size = .ok () := by
  rw [Index.reserveEach_eq_ok_iff] at h ⊢
  have hmul : n * k' ≤ n * k := Nat.mul_le_mul_left n hk
  have hsize : n * k' * size ≤ n * k * size := Nat.mul_le_mul_right size hmul
  omega

variable [Scalar F]

/-- There is room for the series of the arguments and of the results of a call at order `q` over
`r` directions. -/
structure CallSite.Room (site : CallSite F) (q r : Nat) : Prop where
  args : Index.reserveEach site.argCount (q * r + 1) (Scalar.bytes F) = .ok ()
  results : Index.reserveEach site.resultCount (q * r + 1) (Scalar.bytes F) = .ok ()

theorem CallSite.Room.mono {site : CallSite F} {q r r' : Nat} (h : site.Room q r) (hr : r' ≤ r) :
    site.Room q r' := by
  have hle : q * r' + 1 ≤ q * r + 1 := Nat.succ_le_succ (Nat.mul_le_mul_left q hr)
  exact ⟨Index.reserveEach_mono h.args hle, Index.reserveEach_mono h.results hle⟩

theorem CallSite.Room.new_eq {site : CallSite F} {q r : Nat} (h : site.Room q r) (hr : 0 < r) :
    Frame.new site q r = .ok (.opened site q r) := by
  have hle : q + 1 ≤ q * r + 1 := Nat.succ_le_succ (Nat.le_mul_of_pos_right q hr)
  simp only [Frame.new, bind_eq_ok_iff]
  exact ⟨(), Index.reserveEach_mono h.args hle, (), h.args, (),
    Index.reserveEach_mono h.results hle, (), h.results, rfl⟩

theorem Call.Frame.eq_of_new {site : CallSite F} {q r : Nat} {f : Frame F}
    (h : Frame.new site q r = .ok f) : f = .opened site q r := by
  simp only [Frame.new, bind_eq_ok_iff] at h
  obtain ⟨-, -, -, -, -, -, -, -, h⟩ := h
  cases h
  rfl

namespace Replay

variable {p : Plan F} {a : Arena F} {b : Block} {operator : Operator F} {n l : Nat}
variable (options : Options) (frame : Option (Frame F)) (requests : Array (Request F))

/-- Asks the complete frame of a block along all directions. -/
theorem leads_askBlock (hq : 0 < p.order) (hop : p.operator? b = some operator) :
    match (p.ask b a.jet a.layout.directions 0).1 with
    | none => ∃ f, f.targets.toList = b.results.map Plan.target ∧
        (∀ l < a.layout.directions, ∀ i < b.results.length,
          f.results.all.peek i p.order l = p.picked (p.results b (a.jet l)) i) ∧
        Leads (Loop.fold a.layout.directions 0 (ask options operator p.order)
          (p.frame a b b.args b.results)) ⟨a, frame, requests⟩ (.ok f)
          ⟨a, frame, requests ++ (p.ask b a.jet a.layout.directions 0).2.toArray⟩
    | some stop => Leads (Loop.fold a.layout.directions 0 (ask options operator p.order)
        (p.frame a b b.args b.results)) ⟨a, frame, requests⟩ (.error stop)
        ⟨a, frame, requests ++ (p.ask b a.jet a.layout.directions 0).2.toArray⟩ := by
  have hrequest {d : Nat} (hd : d < a.layout.directions) :
      (p.frame a b b.args b.results).requestAlong p.order d = p.request b (a.jet d) :=
    Plan.requestAlong_frame hd
  have hrequests {c : Nat} (hc : c ≤ a.layout.directions) :
      (List.range' 0 c).map ((p.frame a b b.args b.results).requestAlong p.order) =
        (List.range' 0 c).map fun d => p.request b (a.jet d) :=
    List.map_congr_left fun d hd => hrequest (by rw [List.mem_range'_1] at hd; omega)
  have haccepts {d : Nat} {results : Array F} (hd : d < a.layout.directions)
      (h : operator.answer ((p.frame a b b.args b.results).requestAlong p.order d) = .ok results) :
      p.halt? (.call b) (a.jet d) = none ∧ p.results b (a.jet d) = results := by
    have hhalt := Plan.halt?_of_answer hop (a.jet d)
    rw [← hrequest hd, h] at hhalt
    exact hhalt
  have hasked : Frame.Asked p.order a.layout.directions (p.frame a b b.args b.results)
      (p.frame a b b.args b.results) := Frame.asked_refl Plan.sized_staged Plan.sized_staged
  rcases leads_asks operator options a frame requests Plan.sized_staged Plan.sized_staged hq
    (Nat.le_of_eq (Nat.zero_add _)) hasked with
    ⟨f, hf, hanswers, -, hasks⟩ | ⟨d, halt, hd, hbefore, hhalt, hasks⟩
  · have hstop : (p.ask b a.jet a.layout.directions 0).1 = none := by
      refine Plan.ask_eq_none_iff.mpr fun d hle hd => ?_
      obtain ⟨results, hanswer, -⟩ := hanswers d hle hd
      exact (haccepts (by omega) hanswer).1
    rw [hrequests (Nat.le_refl _), ← Plan.requests_of_ask_eq_none hstop] at hasks
    rw [hstop]
    refine ⟨f, ?_, fun d hd i hi => ?_, hasks⟩
    · rw [hf.targets]
      exact Plan.toList_targets_self b.results
    · obtain ⟨results, hanswer, hpeek⟩ := hanswers d (Nat.zero_le d) (by omega)
      rw [(haccepts hd hanswer).2]
      exact hpeek i hi
  · have hbefore' (d' : Nat) (hle : 0 ≤ d') (hlt : d' < 0 + d) :
        p.halt? (.call b) (a.jet d') = none := by
      obtain ⟨results, hanswer⟩ := hbefore d' hle hlt
      exact (haccepts (by omega) hanswer).1
    have hhalts := Plan.halt?_of_answer hop (a.jet (0 + d))
    rw [← hrequest (by omega), hhalt] at hhalts
    rw [hrequests (by omega)] at hasks
    rw [Plan.ask_of_halt? hd hbefore' hhalts]
    exact hasks

/-- The stop or the successful end of a sweep. -/
def ended : Option Stop → Except Stop Unit
  | none => .ok ()
  | some stop => .error stop

/-- A frame that the marker closes is taken off and asked, and its answers are scattered. -/
theorem leads_closeCall_of_checked {q : Nat} {site : CallSite F} {f : Frame F}
    {out : Except Stop Unit} {c : Core F} (hclosing : f.checkClosing site = .ok ())
    (h : Leads (do
      let f ← Loop.fold a.layout.directions 0 (ask options site.operator q) f
      scatter q f.results.all f.targets.toList : Replay F Unit) ⟨a, none, requests⟩ out c) :
    Leads (closeCall options q f site) ⟨a, frame, requests⟩ out c :=
  (leads_ok hclosing).bind (leads_setFrame.bind ((leads_read (m := Arena.directions) rfl).bind h))

/-- Closes a complete frame. -/
theorem leads_closeCall (ha : a.Fits n p.order)
    (hopen : p.openFault? a.layout.directions (.call b) = none)
    (hop : p.operator? b = some operator)
    (hresults : ∀ ins ∈ b.results, Plan.IsResult n ins) :
    let out := p.replayItem a.layout.directions (.call b) a.jet
    ∃ a', SameShape a a' ∧ (∀ l < a.layout.directions, a'.jet l = out.jets l) ∧
      Leads (closeCall options p.order (p.frame a b b.args b.results) (b.site operator))
        ⟨a, frame, requests⟩ (ended out.stop) ⟨a', none, requests ++ out.requests.toArray⟩ := by
  intro out
  have hclosing : (p.frame a b b.args b.results).checkClosing (b.site operator) = .ok () := by
    simp [Frame.checkClosing, Plan.frame, Block.site, bind_eq_ok_iff]
  have hasks := leads_askBlock (a := a) options none requests ha.order_pos hop
  cases hstop : (p.ask b a.jet a.layout.directions 0).1 with
  | some stop =>
    have hout : out = _ := Plan.replayItem_call_some hopen hstop
    rw [hstop] at hasks
    rw [hout]
    exact ⟨a, .refl a, fun _ _ => rfl,
      leads_closeCall_of_checked options frame requests hclosing hasks.bind_error⟩
  | none =>
    have hout : out = _ := Plan.replayItem_call_none hopen hstop
    rw [hstop] at hasks
    obtain ⟨f, htargets, hanswers, hasks⟩ := hasks
    obtain ⟨a', hscatter, hshape, hjets⟩ :=
      Plan.along_scatter (n := n) (q := p.order) f.results.all hresults a ha
    rw [hout]
    refine ⟨a', hshape, ?_,
      leads_closeCall_of_checked options frame requests hclosing (hasks.bind ?_)⟩
    · intro l hl
      show a'.jet l = p.advance (.call b) (a.jet l)
      rw [hjets l hl, Plan.advance_call (Plan.ask_eq_none hstop l (Nat.zero_le l) (by omega))]
      apply Jet.fill_congr
      intro i hi
      exact hanswers l hl i (by omega)
    · rw [htargets]
      exact leads_update hscatter

omit [Scalar F] in
theorem leads_takeArg {f f' : Frame F} {value : Nat → Nat → Arena.Read F F}
    (hphase : f.phase = .args) (hput : f.putArg value a = .ok f') :
    Leads (takeArg value) ⟨a, some f, requests⟩ (.ok ()) ⟨a, some f', requests⟩ := by
  apply Leads.get
  intro s hs
  have hframe : s.frame = some f := congrArg Core.frame hs
  rw [hframe]
  exact (leads_require hphase).bind ((leads_read hput).bind leads_setFrame)

omit [Scalar F] in
theorem leads_takeResult {f f' : Frame F} {row : Nat} {value : Nat → Nat → Arena.Read F F}
    (hphase : f.phase = .results) (hput : f.putResult row value a = .ok f') :
    Leads (takeResult row value) ⟨a, some f, requests⟩ (.ok ()) ⟨a, some f', requests⟩ := by
  apply Leads.get
  intro s hs
  have hframe : s.frame = some f := congrArg Core.frame hs
  rw [hframe]
  exact (leads_require hphase).bind ((leads_read hput).bind leads_setFrame)

theorem leads_open {q : Nat} {site : CallSite F} {f : Frame F}
    (hnew : Frame.new site q a.layout.directions = .ok f) :
    Leads (marker options q site) ⟨a, none, requests⟩ (.ok ()) ⟨a, some f, requests⟩ := by
  apply Leads.get
  intro s hs
  have hframe : s.frame = none := congrArg Core.frame hs
  rw [hframe]
  exact (leads_read (m := Arena.directions) rfl).bind ((leads_ok hnew).bind leads_setFrame)

theorem leads_open_fault {q : Nat} {site : CallSite F} {f : Fault}
    (hnew : Frame.new site q a.layout.directions = .error f) :
    Leads (marker options q site) ⟨a, none, requests⟩ (.error (.fault f))
      ⟨a, none, requests⟩ := by
  apply Leads.get
  intro s hs
  have hframe : s.frame = none := congrArg Core.frame hs
  rw [hframe]
  exact (leads_read (m := Arena.directions) rfl).bind (leads_fault hnew).bind_error

theorem leads_close {q : Nat} {site : CallSite F} {f : Frame F} {out : Except Stop Unit}
    {c : Core F} (hphase : f.phase = .finished)
    (h : Leads (closeCall options q f site) ⟨a, some f, requests⟩ out c) :
    Leads (marker options q site) ⟨a, some f, requests⟩ out c := by
  apply Leads.get
  intro s hs
  have hframe : s.frame = some f := congrArg Core.frame hs
  rw [hframe]
  simpa only [hphase] using h

end Replay

namespace Plan

variable {p : Plan F} {a : Arena F} {b : Block} {n k : Nat}

theorem frame_phase_args {args : List Instr} (h : args.length < b.args.length) :
    (p.frame a b args []).phase = .args := by
  simp [frame, Frame.phase, h]

theorem frame_phase_results {results : List Instr} (h : results.length < b.results.length) :
    (p.frame a b b.args results).phase = .results := by
  simp [frame, Frame.phase, h]

theorem frame_phase_finished : (p.frame a b b.args b.results).phase = .finished := by
  simp [frame, Frame.phase]

omit [Scalar F] in
/-- A valid block names an operator, and its markers describe a call of it. -/
theorem exists_site (hb : b.Valid n k p.registry.size) (hargs : b.args.length < Index.argBound)
    (hresults : b.results.length < Index.argBound) :
    ∃ operator, p.operator? b = some operator ∧
      CallSite.ofArgs p.registry b.opening.args = .ok (b.site operator) := by
  obtain ⟨handle, callId, hhandle, hopening⟩ := hb.header
  rw [Index.toArg_of_lt hargs, Index.toArg_of_lt hresults] at hopening
  have hget : p.registry[handle]? = some p.registry[handle] := Array.getElem?_eq_getElem hhandle
  refine ⟨p.registry[handle], ?_, ?_⟩
  · simp [operator?, hopening, hget]
  · simp [CallSite.ofArgs, hopening, Block.site, Index.arg, hget, bind_eq_ok_iff, pure, Except.pure]

end Plan

end JetTape
