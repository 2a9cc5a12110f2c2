import JetTape.Proofs.Sweep.Inputs

/-!
Sweeps of recorded tapes. When the shapes are right a sweep replays the items of the tape, whatever
it reports meanwhile; when they are not it stops at the check that fails.
-/
namespace JetTape

open Arena (SameShape)
open Replay (Leads ended)

variable {F : Type}

/-- The buffer was made for the tape. -/
structure Buffer.Fits (b : Buffer F) (t : Tape F) : Prop where
  rows : b.rows = t.rows
  shaped : b.arena.Shaped t.rows

instance (b : Buffer F) (t : Tape F) : Decidable (b.Fits t) :=
  decidable_of_iff (b.rows = t.rows ∧ b.arena.layout.length t.rows = .ok b.arena.cells.size ∧
      0 < b.arena.layout.directions)
    ⟨fun ⟨hr, hl, hd⟩ => ⟨hr, hl, hd⟩, fun ⟨hr, hl, hd⟩ => ⟨hr, hl, hd⟩⟩

/-- A buffer for the sample tape: orders below 3, two directions, ones everywhere. -/
def sampleBuffer : Buffer ℚ := ⟨⟨⟨3, 2⟩, Array.replicate 45 1⟩, 9⟩

theorem sampleBuffer_fits : sampleBuffer.Fits sampleTape := by decide +kernel

theorem Buffer.Fits.get_eq [Scalar F] {b : Buffer F} {t : Tape F} (h : b.Fits t) {v k l : Nat}
    (hv : v < t.rows) (hk : k < b.layout.capOrder) (hl : l < b.layout.directions) :
    b.get v k l = .ok (b.arena.jet l v k) := by
  have hlength := h.shaped.length
  rw [h.shaped.size_eq] at hlength
  rw [← h.shaped.get_eq hv hk hl, Arena.get, h.shaped.locate_eq hv hk hl, Buffer.get,
    Buffer.layout, Layout.offset_eq_cell hlength hv hk hl]
  rfl

/-- A buffer with the cells of an arena of its shape holds that arena. -/
theorem Arena.SameShape.withCells_eq {b : Buffer F} {a : Arena F} (h : SameShape b.arena a)
    {cells : Array F} (hcells : cells = a.cells) : (b.withCells cells).arena = a := by
  have hlayout := h.layout
  cases a
  simp only at hcells hlayout
  rw [hcells, hlayout]
  rfl

theorem Buffer.Fits.withCells {b : Buffer F} {t : Tape F} (h : b.Fits t) {cells : Array F}
    (hshape : SameShape b.arena (b.withCells cells).arena) : (b.withCells cells).Fits t :=
  ⟨h.rows, hshape.shaped h.shaped⟩

/-- A buffer that was made for one tape fits another one with the same rows. -/
theorem Buffer.Fits.of_rows {b : Buffer F} {t u : Tape F} (h : b.Fits t) (hrows : u.rows = t.rows) :
    b.Fits u :=
  ⟨h.rows.trans hrows.symm, hrows ▸ h.shaped⟩

namespace Replay

/-- What a run leaves. -/
theorem run_of_leads {m : Replay F Unit} {a : Arena F} {out : Option Stop} {c : Core F}
    (h : Leads m ⟨a, none, #[]⟩ (ended out) c) :
    (m.run a).stop = out ∧ (m.run a).cells = c.arena.cells ∧ (m.run a).requests = c.requests := by
  obtain ⟨s, hm, rfl⟩ := h { arena := a } rfl
  unfold Replay.run
  rw [hm]
  cases out <;> exact ⟨rfl, rfl, rfl⟩

end Replay

/-- The shapes of a sweep over an arena of its program. -/
theorem Arena.Shaped.checkShapes_eq_ok_iff {P : Program F} {a : Arena F} {q : Nat}
    {mask : Array Bool} {resolved : Array Nat} (ha : a.Shaped P.rowCount) :
    Replay.checkShapes P q mask resolved a = .ok () ↔
      a.Fits P.rowCount q ∧ mask.size = P.instrCount ∧ resolved.size = P.loadCount := by
  simp only [Replay.checkShapes, bind_eq_ok_iff, require_eq_ok_iff, ha.length]
  constructor
  · rintro ⟨-, hpos, -, hlt, _, -, -, -, -, hmask, hloads⟩
    exact ⟨⟨ha, hpos, hlt⟩, hmask, hloads⟩
  · rintro ⟨hfit, hmask, hloads⟩
    exact ⟨(), hfit.order_pos, (), hfit.order_lt, _, rfl, (), rfl, (), hmask, hloads⟩

/-- Arenas are checked against the rows and the loads of a program. -/
theorem Replay.checkShapes_congr {P P' : Program F} {a : Arena F} {q : Nat}
    {mask mask' : Array Bool} {resolved : Array Nat} (hrows : P'.rowCount = P.rowCount)
    (hloads : P'.loadCount = P.loadCount) (hmask : mask.size = P.instrCount)
    (hmask' : mask'.size = P'.instrCount) :
    checkShapes P' q mask' resolved a = checkShapes P q mask resolved a := by
  simp only [checkShapes, hrows, hloads, hmask, hmask']
  rfl

variable [Scalar F]

namespace Replay

variable {P : Program F} {p : Plan F} {items : List Item}

omit [Scalar F] in
/-- A program that begins with its start and its independents passes the check of its head. -/
theorem checkHead_eq_ok (hstart : ∃ ins, P.instr 0 = .ok ins ∧ ins.op = .start)
    (hindependent : ∀ i, 1 ≤ i → i ≤ P.independentCount →
      ∃ ins, P.instr i = .ok ins ∧ ins.op = .independent) : checkHead P = .ok () := by
  have heach : ∀ n i, 1 ≤ i → i + n ≤ 1 + P.independentCount →
      (Loop.each n i fun i => do
        require ((← P.instr i).op = .independent) (.notIndependent i) :
        Except Fault Unit) = .ok () := by
    intro n
    induction n with
    | zero => exact fun _ _ _ => rfl
    | succ n ih =>
      intro i hi hn
      obtain ⟨ins, hins, hop⟩ := hindependent i hi (by omega)
      simp only [Loop.each, bind_eq_ok_iff, require_eq_ok_iff]
      exact ⟨(), ⟨ins, hins, hop⟩, ih (i + 1) (by omega) (by omega)⟩
  obtain ⟨ins, hins, hop⟩ := hstart
  simp only [checkHead, bind_eq_ok_iff, require_eq_ok_iff]
  exact ⟨ins, hins, (), hop, heach P.independentCount 1 (Nat.le_refl 1) (Nat.le_refl _)⟩

omit [Scalar F] in
theorem leads_checkHead (hhead : P.Holds 0 (headInstrs P.independentCount)) (c : Core F) :
    Leads (liftM (checkHead P) : Replay F Unit) c (.ok ()) c := by
  apply leads_ok
  refine checkHead_eq_ok ⟨_, hhead 0 (by simp), rfl⟩ fun i hi hle => ?_
  have hins := hhead i (by simp; omega)
  rw [Nat.zero_add] at hins
  refine ⟨_, hins, ?_⟩
  obtain ⟨k, rfl⟩ : ∃ k, i = k + 1 := ⟨i - 1, by omega⟩
  simp [headInstrs]

/-- The sweep of a program that is a head, items and a `stop` replays the items. -/
theorem leads_sweep (hp : p.For P) {stop : Instr} (hstop : stop.op = .stop) {a : Arena F}
    (ha : a.Shaped P.rowCount) (hshapes : checkShapes P p.order p.mask p.resolved a = .ok ())
    (hholds : P.Holds 0 (headInstrs P.independentCount ++ instrsOf items ++ [stop]))
    (hcount : P.instrCount = P.independentCount + 1 + (instrsOf items).length + 1)
    (hbound : P.instrCount < Index.bound) (hrowsBound : P.rowCount ≤ Index.argBound)
    (hitems : ValidItems p.params.size p.resolved.size p.registry.size (1 + P.independentCount)
      items)
    (hrows : 1 + P.independentCount + rowCount (instrsOf items) ≤ P.rowCount)
    (hserves : ∀ item ∈ items, p.Serves item)
    (hconsistent : Consistent p.mask (P.independentCount + 1) items)
    (hlast : p.marks (P.independentCount + 1 + (instrsOf items).length) = false)
    (options : Options) (requests : Array (Request F)) :
    let out := p.replayItems a.layout.directions (P.independentCount + 1) items a.jet
    ∃ a', SameShape a a' ∧ (∀ l < a.layout.directions, a'.jet l = out.jets l) ∧
      Leads (sweep P p.order p.mask p.resolved options) ⟨a, none, requests⟩ (ended out.stop)
        ⟨a', none, requests ++ out.requests.toArray⟩ := by
  intro out
  obtain ⟨hfit, hmaskSize, -⟩ := ha.checkShapes_eq_ok_iff.mp hshapes
  rw [List.append_assoc] at hholds
  obtain ⟨hhead, hthere⟩ := Program.holds_append.mp hholds
  rw [length_headInstrs, Nat.zero_add] at hthere
  obtain ⟨a', hshape, hjets, hleads⟩ := leads_items options hp hrowsBound
    (by omega) hstop requests hfit hitems hserves (by omega) hrows hthere hconsistent (by omega)
    hlast rfl
  refine ⟨a', hshape, hjets, ?_⟩
  apply Leads.get
  intro s hs
  have harena : s.arena = a := congrArg Core.arena hs
  rw [harena]
  apply (leads_ok hshapes).bind
  apply (leads_checkHead hhead _).bind
  apply (leads_report options _).bind
  apply (leads_ok ha.ofCells_eq).bind
  apply leads_setFrame.bind
  apply (leads_ok (Index.add_eq_ok_iff.mpr ⟨?_, rfl⟩)).bind
  · exact hleads
  · omega

end Replay

namespace Tape

variable {t : Tape F} {items : List Item} {tail : List Instr} {b : Buffer F}
variable {q : Nat} {mask : Array Bool} {resolved : Array Nat}

/-- The sweep of a stopped tape over an arena with wrong shapes. -/
theorem leads_replay_fault (hstop : t.isStopped = true) {a : Arena F} {f : Fault}
    (h : Replay.checkShapes t.program q mask resolved a = .error f) (options : Options)
    (requests : Array (Request F)) :
    Leads (t.replay t.rows q mask resolved options) ⟨a, none, requests⟩ (ended (some (.fault f)))
      ⟨a, none, requests⟩ := by
  apply (Replay.leads_require (by simpa using hstop)).bind
  apply (Replay.leads_require rfl).bind
  apply Leads.get
  intro s hs
  have harena : s.arena = a := congrArg Core.arena hs
  rw [harena]
  exact (Replay.leads_fault h).bind_error

theorem sweep_of_checkShapes_error (hstop : t.isStopped = true) (hb : b.Fits t) {f : Fault}
    (h : Replay.checkShapes t.program q mask resolved b.arena = .error f) (options : Options) :
    (t.sweep q b mask resolved options).stop = some (.fault f) ∧
      (t.sweep q b mask resolved options).requests = #[] := by
  unfold sweep
  rw [hb.rows]
  obtain ⟨hstop, -, hrequests⟩ := Replay.run_of_leads (leads_replay_fault hstop h options #[])
  exact ⟨hstop, hrequests⟩

/-- A sweep that comes to its end has found its shapes right. -/
theorem checkShapes_of_sweep (hstop : t.isStopped = true) (hb : b.Fits t) {options : Options}
    (hnone : (t.sweep q b mask resolved options).stop = none) :
    Replay.checkShapes t.program q mask resolved b.arena = .ok () := by
  cases h : Replay.checkShapes t.program q mask resolved b.arena with
  | error f => cases hnone.symm.trans (sweep_of_checkShapes_error hstop hb h options).1
  | ok _ => rfl

/-- A sweep that finds its shapes wrong has changed nothing. -/
theorem cells_of_checkShapes_error (hstop : t.isStopped = true) (hb : b.Fits t) {f : Fault}
    (h : Replay.checkShapes t.program q mask resolved b.arena = .error f) (options : Options) :
    (t.sweep q b mask resolved options).cells = b.cells := by
  unfold sweep
  rw [hb.rows]
  exact (Replay.run_of_leads (leads_replay_fault hstop h options #[])).2.1

/-- A sweep over a buffer that was made for other rows ends before it has changed anything. -/
theorem sweep_foreign (hstop : t.isStopped = true) (hrows : b.rows ≠ t.rows) (options : Options) :
    let run := t.sweep q b mask resolved options
    run.stop = some (.fault (.foreignBuffer b.rows t.rows)) ∧ run.cells = b.cells := by
  have hforeign : (require (b.rows = t.rows) (.foreignBuffer b.rows t.rows) :
      Except Fault Unit) = .error (.foreignBuffer b.rows t.rows) := if_neg hrows
  have hleads : Leads (t.replay b.rows q mask resolved options) ⟨b.arena, none, #[]⟩
      (ended (some (.fault (.foreignBuffer b.rows t.rows)))) ⟨b.arena, none, #[]⟩ :=
    (Replay.leads_require (by simpa using hstop)).bind (Replay.leads_fault hforeign).bind_error
  obtain ⟨hend, hcells, -⟩ := Replay.run_of_leads hleads
  exact ⟨hend, hcells⟩

/-- A sweep over an arena of the tape replays the items of the tape. -/
theorem Spells.leads_replay (h : t.Spells items tail) (hc : t.Countable)
    (hstop : t.isStopped = true) {a : Arena F} (ha : a.Shaped t.rows)
    (hshapes : Replay.checkShapes t.program q mask resolved a = .ok ())
    (hmask : t.MaskOk mask) (hloads : t.LoadsOk resolved) (options : Options)
    (requests : Array (Request F)) :
    let out := (t.plan q mask resolved).replayItems a.layout.directions (t.independents + 1)
      items a.jet
    ∃ a', SameShape a a' ∧ (∀ l < a.layout.directions, a'.jet l = out.jets l) ∧
      Leads (t.replay t.rows q mask resolved options) ⟨a, none, requests⟩ (ended out.stop)
        ⟨a', none, requests ++ out.requests.toArray⟩ := by
  intro out
  obtain ⟨-, -, hloadCount⟩ := (Arena.Shaped.checkShapes_eq_ok_iff
    (P := t.program) ha).mp hshapes
  have hloadCount : resolved.size = t.loads := hloadCount
  have htail : tail = [⟨.stop, [], t.rows - 1⟩] :=
    h.tail.resolve_left (h.isStopped_iff.mp hstop)
  subst htail
  have hopsSize := h.size_eq
  rw [List.length_singleton] at hopsSize
  have hinstrs := hc.instrs
  have hargBound : Index.argBound ≤ Index.bound := by decide
  have hmarks : (t.plan q mask resolved).marks (t.independents + 1 + (instrsOf items).length) =
      false := by
    have hlast : t.ops.size - 1 = t.independents + 1 + (instrsOf items).length := by omega
    rw [← hlast]
    exact hmask.stop
  have hitems : ValidItems t.params.size resolved.size t.registry.size (1 + t.independents)
      items := by
    rw [hloadCount]
    exact h.valid
  obtain ⟨a', hshape, hjets, hleads⟩ := Replay.leads_sweep (plan_for t q mask resolved) rfl ha
    hshapes (h.program_holds hc) hopsSize (Nat.lt_of_lt_of_le hinstrs hargBound)
    (Nat.le_of_lt h.bound) hitems (Nat.le_of_eq h.rows.symm) (h.serves hc hloads)
    (h.consistent hmask) hmarks options requests
  refine ⟨a', hshape, hjets, ?_⟩
  apply (Replay.leads_require (by simpa using hstop)).bind
  exact (Replay.leads_require rfl).bind hleads

/-- The sweep of a recorded tape replays its items. -/
theorem Spells.sweep (h : t.Spells items tail) (hc : t.Countable) (hstop : t.isStopped = true)
    (hb : b.Fits t)
    (hshapes : Replay.checkShapes t.program q mask resolved b.arena = .ok ())
    (hmask : t.MaskOk mask) (hloads : t.LoadsOk resolved) (options : Options) :
    let out := (t.plan q mask resolved).replayItems b.layout.directions (t.independents + 1)
      items b.arena.jet
    let run := t.sweep q b mask resolved options
    run.stop = out.stop ∧ run.requests = out.requests.toArray ∧
      SameShape b.arena (b.withCells run.cells).arena ∧
      ∀ l < b.layout.directions, (b.withCells run.cells).arena.jet l = out.jets l := by
  intro out run
  obtain ⟨a', hshape, hjets, hleads⟩ :=
    h.leads_replay hc hstop hb.shaped hshapes hmask hloads options #[]
  rw [← hb.rows] at hleads
  obtain ⟨hstop', hcells, hrequests⟩ := Replay.run_of_leads hleads
  have harena : (b.withCells run.cells).arena = a' := hshape.withCells_eq hcells
  rw [Array.empty_append] at hrequests
  rw [harena]
  exact ⟨hstop', hrequests, hshape, hjets⟩

end Tape

end JetTape
