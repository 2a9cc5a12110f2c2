import JetTape.Proofs.Replay.Extension
import JetTape.Proofs.Sweep.Run
import JetTape.Proofs.Tape.Ended

/-!
Sweeps of a tape on which steps have been tried after its `stop`. Such steps add parameters and
operators that no instruction refers to, and loads take slots that no instruction reads. A sweep
sees nothing of them but the number of slots, which its load table has to match.
-/
namespace JetTape

variable {F : Type}

namespace Tape

open Recorder (Action)

variable {t t' : Tape F} {body tail : List Instr} {n : Nat}

/-- The instructions of a tape refer to nothing beyond its tables. -/
theorem Contains.refers (h : t.Contains body tail) (hargs : t.args.size < Index.argBound)
    (loads : Nat) (operators : Array (Operator F)) :
    ({ t with loads := loads } : Tape F).program.Refers
      (CallSite.ofArgs (t.registry ++ operators)) := by
  have hplace (i : Nat) (ins : Instr) (hins : t.instr i = .ok ins) :
      (ins.op = .start ∨ ins.op = .independent ∨ ins.op = .stop) ∨
        ∃ n, Instr.Sound n t.params.size t.loads t.registry.size ins.op ins.args := by
    have hmem := List.mem_of_getElem? ((h.lists.instr_eq_ok_iff hargs).mp hins)
    rcases List.mem_append.mp hmem with hmem | hmem
    · rcases List.mem_append.mp hmem with hmem | hmem
      · rcases (op_headInstrs ins hmem).1 with hop | hop
        · exact Or.inl (Or.inl hop)
        · exact Or.inl (Or.inr (Or.inl hop))
      · exact Or.inr (h.sound.exists_of_mem hmem)
    · rcases h.tail with rfl | rfl
      · cases hmem
      · rw [List.mem_singleton.mp hmem]
        exact Or.inl (Or.inr (Or.inr rfl))
  constructor
  · intro i ins hins
    exact (hplace i ins hins).imp_right fun ⟨n, hsound⟩ => ⟨n, _, _, hsound⟩
  · intro i ins hins hop
    obtain ⟨op, args, row⟩ := ins
    cases hop
    rcases hplace i _ hins with hframe | ⟨n, hsound⟩
    · simp at hframe
    · cases hsound with
      | plain hvalid => cases hvalid
      | callMarker callId args results hhandle =>
        show CallSite.ofArgs (t.registry ++ operators) _ = CallSite.ofArgs t.registry _
        simp only [CallSite.ofArgs, Index.arg, List.getElem?_cons_zero, bind, Except.bind,
          Array.getElem?_append_left hhandle]

variable [Scalar F]

/-- The number of load slots is all that a sweep sees of what has been added. -/
theorem Augments.replay_eq (h : t.Augments n t') (ht : t.Contains body tail)
    (hargs : t.args.size < Index.argBound) (rows q : Nat) (mask : Array Bool)
    (resolved : Array Nat) (options : Options) :
    t'.replay rows q mask resolved options =
      ({ t with loads := t.loads + n } : Tape F).replay rows q mask resolved options := by
  obtain ⟨params, operators, rfl⟩ := h
  unfold replay
  rw [← Replay.sweep_extend (ht.refers hargs (t.loads + n) operators) params]
  rfl

variable (q : Nat) (b : Buffer F) (mask : Array Bool) (resolved : Array Nat) (options : Options)

theorem Augments.sweep_eq (h : t.Augments n t') (ht : t.Contains body tail)
    (hargs : t.args.size < Index.argBound) :
    t'.sweep q b mask resolved options =
      ({ t with loads := t.loads + n } : Tape F).sweep q b mask resolved options := by
  unfold sweep
  rw [h.replay_eq ht hargs]

theorem Augments.sweepOrders_eq (h : t.Augments n t') (ht : t.Contains body tail)
    (hargs : t.args.size < Index.argBound) :
    t'.sweepOrders q b mask resolved options =
      ({ t with loads := t.loads + n } : Tape F).sweepOrders q b mask resolved options := by
  have hreplay := funext fun k => h.replay_eq ht hargs b.rows k mask resolved options
  unfold sweepOrders replayOrders
  rw [hreplay]

/-- A sweep whose load table was made for fewer slots stops before it has changed anything. -/
theorem sweep_of_loads (hstopped : t.isStopped = true) (hrows : b.rows = t.rows) (hn : 0 < n)
    (hshapes : Replay.checkShapes t.program q mask resolved b.arena = .ok ()) :
    let run := ({ t with loads := t.loads + n } : Tape F).sweep q b mask resolved options
    run.stop = some (.fault (.loadTableLength t.loads (t.loads + n))) ∧ run.cells = b.cells := by
  let u : Tape F := { t with loads := t.loads + n }
  have hcheck : Replay.checkShapes u.program q mask resolved b.arena =
      .error (.loadTableLength t.loads (t.loads + n)) := by
    simp only [Replay.checkShapes, bind_eq_ok_iff, require_eq_ok_iff] at hshapes
    obtain ⟨_, hpos, _, hlt, needed, hlength, _, hcells, _, hmask, hloads⟩ := hshapes
    have hneeded : b.arena.layout.length u.program.rowCount = .ok needed := hlength
    have hinstrs : mask.size = u.program.instrCount := hmask
    have htable : resolved.size = t.loads := hloads
    have hmore : u.program.loadCount = t.loads + n := rfl
    simp only [Replay.checkShapes, require, hpos, hlt, hneeded, hcells, hinstrs, hmore, htable,
      bind, Except.bind, if_true]
    rw [if_neg (by omega)]
  have hleads := leads_replay_fault (t := u) hstopped hcheck options #[]
  obtain ⟨hstop, hcells, -⟩ := Replay.run_of_leads hleads
  intro run
  have hrun : run = (u.replay u.rows q mask resolved options).run b.arena := by
    show (u.replay b.rows q mask resolved options).run b.arena = _
    rw [hrows]
  rw [hrun]
  exact ⟨hstop, hcells⟩

/-- A tape without faults contains sound instructions. -/
theorem Recorded.contains (h : t.Recorded) : ∃ body tail, t.Contains body tail := by
  obtain ⟨items, tail, hspells⟩ := h.spells
  obtain ⟨actions, hrun⟩ := h
  have ht : ofAttempts actions = t := by
    rw [ofAttempts_eq (by rw [Recorder.Succeeds, hrun]), ofSession, hrun]
  rcases wellFormed_ofAttempts actions with hcontains | hfull
  · rwa [ht] at hcontains
  · rw [ht] at hfull
    have hbound := hspells.bound
    have hrows := hspells.rows
    omega

/-- On an ended tape no step changes what a sweep does, but for loads that take a slot: all that a
sweep sees of the steps is the number of slots. Where none has been taken it ends as before, with
the same coefficients, requests and reports; where some have, a load table with the right length
before has the wrong one now. -/
theorem sweep_ended (h : t.Recorded) (hstopped : t.isStopped = true)
    (hargs : t.args.size < Index.argBound) (later : List (Action F)) :
    let t' := t.attempt later
    t'.loads = t.loads + t.slotsTaken later ∧
      (∀ q b mask resolved options,
        t'.sweep q b mask resolved options =
          ({ t with loads := t'.loads } : Tape F).sweep q b mask resolved options ∧
        t'.sweepOrders q b mask resolved options =
          ({ t with loads := t'.loads } : Tape F).sweepOrders q b mask resolved options) ∧
      (t.slotsTaken later = 0 → ∀ q b mask resolved options,
        t'.sweep q b mask resolved options = t.sweep q b mask resolved options ∧
        t'.sweepOrders q b mask resolved options = t.sweepOrders q b mask resolved options) ∧
      (0 < t.slotsTaken later → ∀ q b mask resolved options, b.rows = t.rows →
        Replay.checkShapes t.program q mask resolved b.arena = .ok () →
        let run := t'.sweep q b mask resolved options
        run.stop = some (.fault (.loadTableLength t.loads t'.loads)) ∧ run.cells = b.cells) := by
  intro t'
  obtain ⟨body, tail, ht⟩ := h.contains
  have haugments : t.Augments (t.slotsTaken later) t' := (ht.ended hstopped).augments later
  have hloads : t'.loads = t.loads + t.slotsTaken later := by
    obtain ⟨params, operators, heq⟩ := haugments
    rw [heq]
  have hsweep q b mask resolved options :=
    haugments.sweep_eq q b mask resolved options ht hargs
  have horders q b mask resolved options :=
    haugments.sweepOrders_eq q b mask resolved options ht hargs
  rw [hloads]
  refine ⟨rfl, fun q b mask resolved options => ⟨hsweep .., horders ..⟩, ?_, ?_⟩
  · intro hnone q b mask resolved options
    have hsame : ({ t with loads := t.loads + t.slotsTaken later } : Tape F) = t := by
      rw [hnone]
      rfl
    rw [hsweep, horders, hsame]
    exact ⟨rfl, rfl⟩
  · intro hsome q b mask resolved options hrows hshapes
    rw [hsweep]
    exact sweep_of_loads q b mask resolved options hstopped hrows hsome hshapes

/-- Steps on a stopped tape that take no slot. -/
def lateSteps : List (Action ℚ) :=
  [.parameter 5, .erf 1, .register .echo, .load 0 (.var 99), .finish]

/-- Sweeps of the sample tape pay no heed to such steps, and stop for want of the slot of a load. -/
theorem lateSteps_sweep_ended :
    (∀ q b mask resolved options,
      (sampleTape.attempt lateSteps).sweep q b mask resolved options =
        sampleTape.sweep q b mask resolved options) ∧
      ((sampleTape.attempt (lateSteps ++ [.load 0 (.var 1)])).sweep 2 sampleBuffer sampleMask #[3]
        {}).stop = some (.fault (.loadTableLength 1 2)) := by
  have hstopped : sampleTape.isStopped = true := by decide +kernel
  have hargs : sampleTape.args.size < Index.argBound := by decide +kernel
  constructor
  · obtain ⟨-, -, hfrozen, -⟩ := sweep_ended sampleTape_recorded hstopped hargs lateSteps
    exact fun q b mask resolved options =>
      (hfrozen (by decide +kernel) q b mask resolved options).1
  · obtain ⟨-, -, -, hstops⟩ :=
      sweep_ended sampleTape_recorded hstopped hargs (lateSteps ++ [.load 0 (.var 1)])
    have hbefore : sampleTape.loads = 1 := by decide +kernel
    have hafter : (sampleTape.attempt (lateSteps ++ [.load 0 (.var 1)])).loads = 2 := by
      decide +kernel
    rw [hbefore, hafter] at hstops
    exact (hstops (by decide +kernel) 2 sampleBuffer sampleMask #[3] {} (by decide +kernel)
      (by decide +kernel)).1

/-- One variable, and the end. -/
def shortSession : List (Action ℚ) := [.independents 1, .finish]

/-- A load that comes too late is refused, and yet the next sweep stops for want of its slot. -/
theorem late_load_shows :
    ¬ ∀ (t : Tape ℚ) (later : List (Action ℚ)) q b mask resolved options, t.Recorded →
      t.isStopped = true → (t.attempt later).sweep q b mask resolved options =
        t.sweep q b mask resolved options := by
  intro h
  have hsame := h (ofSession shortSession) [.load 0 (.var 1)] 1 ⟨⟨⟨2, 1⟩, Array.replicate 4 1⟩, 2⟩
    (Array.replicate 3 false) #[] {} (Tape.ofSession_recorded (by decide +kernel))
    (by decide +kernel)
  have hstops := congrArg (fun run => run.stop) hsame
  exact absurd hstops (by decide +kernel)

end Tape

end JetTape
