import JetTape.Proofs.Replay.Copies
import JetTape.Proofs.Sweep.Run

/-!
Directions never mix. What a sweep does along a direction is told by the coefficients along it up to
the order of the sweep, so directions may be permuted, dropped, repeated or swept one at a time, and
a buffer may keep more orders or fewer. It does not matter how the instructions of the tape are read
back, so this also holds of tapes whose argument offsets have wrapped around.
-/
namespace JetTape

variable {F : Type}

namespace Tape

/-- Up to order `q`, direction `l` of `b` and direction `l'` of `b'` have the same coefficients on
every row of the tape. -/
def SameSeries (t : Tape F) (q : Nat) (b : Buffer F) (l : Nat) (b' : Buffer F) (l' : Nat) : Prop :=
  ∀ v < t.rows, ∀ k ≤ q, b.get v k l = b'.get v k l'

instance [DecidableEq F] (t : Tape F) (q : Nat) (b : Buffer F) (l : Nat) (b' : Buffer F)
    (l' : Nat) : Decidable (t.SameSeries q b l b' l') :=
  inferInstanceAs (Decidable (∀ v < t.rows, ∀ k ≤ q, b.get v k l = b'.get v k l'))

/-- Whatever arguments are read with an instruction, its row is a row of the tape. -/
theorem Spells.row_lt_of_instr {t : Tape F} {items : List Item} {tail : List Instr}
    (h : t.Spells items tail) {i : Nat} {ins : Instr} (hins : t.instr i = .ok ins) :
    ins.row < t.rows := by
  obtain ⟨-, hrow⟩ := of_instr hins
  rw [h.lists.resultRows, List.getElem?_toArray, List.getElem?_map, Option.map_eq_some_iff] at hrow
  obtain ⟨listed, hlisted, hrow⟩ := hrow
  have hrows := h.rows
  have hmem := List.mem_of_getElem? hlisted
  simp only [List.mem_append] at hmem
  rw [← hrow]
  rcases hmem with (hhead | hitem) | htail
  · simp only [headInstrs, List.mem_cons, List.mem_map, List.mem_range] at hhead
    rcases hhead with rfl | ⟨k, hk, rfl⟩
    · exact h.rows_pos
    · show k + 1 < t.rows
      omega
  · rw [hrows]
    exact h.valid.placed.row_lt (by omega) listed hitem
  · rcases h.tail with rfl | rfl
    · cases htail
    · rw [List.mem_singleton.mp htail]
      exact Nat.sub_lt h.rows_pos Nat.one_pos

variable [Scalar F] {t : Tape F} {items : List Item} {tail : List Instr} {b b' : Buffer F}
variable {q : Nat} {mask : Array Bool} {resolved : Array Nat}

theorem sameSeries_iff {l l' : Nat} (hb : b.Fits t) (hb' : b'.Fits t) (hq : q < b.layout.capOrder)
    (hq' : q < b'.layout.capOrder) (hl : l < b.layout.directions)
    (hl' : l' < b'.layout.directions) :
    t.SameSeries q b l b' l' ↔ (b.arena.jet l).EqUpTo q (b'.arena.jet l') := by
  constructor
  · intro h v k hk
    by_cases hv : v < t.rows
    · have hsame := h v hv k hk
      rw [hb.get_eq hv (by omega) hl, hb'.get_eq hv (by omega) hl'] at hsame
      exact Except.ok.inj hsame
    · rw [hb.shaped.jet_of_le (by omega), hb'.shaped.jet_of_le (by omega)]
  · intro h v hv k hk
    rw [hb.get_eq hv (by omega) hl, hb'.get_eq hv (by omega) hl']
    exact congrArg Except.ok (h v k hk)

/-- The choice of the directions of `b'` among those of `b`. -/
def copying (t : Tape F) (q : Nat) (b b' : Buffer F) (s : Nat → Nat)
    (hs : ∀ l < b'.layout.directions, s l < b.layout.directions) : Copying :=
  ⟨t.rows, q, b.layout, b'.layout, s, hs⟩

/-- A sweep treats copies as it treats their originals. -/
theorem Spells.copiedAt_replay (h : t.Spells items tail) (hstop : t.isStopped = true)
    (hb : b.Fits t) (hb' : b'.Fits t) (hq : q < b.layout.capOrder) (hq' : q < b'.layout.capOrder)
    (hroom : t.RoomOk q b'.layout.directions)
    (hshapes : Replay.checkShapes t.program q mask resolved b.arena = .ok ()) {s : Nat → Nat}
    (hs : ∀ l < b'.layout.directions, s l < b.layout.directions)
    (hsame : ∀ l < b'.layout.directions, t.SameSeries q b' l b (s l)) (options options' : Options) :
    (t.copying q b b' s hs).CopiedAt ⟨b.arena, none, #[]⟩ ⟨b'.arena, none, #[]⟩
      (t.replay b.rows q mask resolved options) (t.replay b'.rows q mask resolved options') := by
  obtain ⟨hfit, hsizes⟩ :=
    (Arena.Shaped.checkShapes_eq_ok_iff (P := t.program) hb.shaped).mp hshapes
  have hfit' : b'.arena.Fits t.rows q := ⟨hb'.shaped, hfit.order_pos, hq'⟩
  have harenas : (t.copying q b b' s hs).Arenas b.arena b'.arena :=
    ⟨hfit, hfit', rfl, rfl, fun l hl =>
      (sameSeries_iff hb' hb hq' hq hl (hs l hl)).mp (hsame l hl)⟩
  have hsweep : (t.copying q b b' s hs).CopiedAt ⟨b.arena, none, #[]⟩ ⟨b'.arena, none, #[]⟩
      (Replay.sweep t.program q mask resolved options)
      (Replay.sweep t.program q mask resolved options') :=
    Copying.copied_sweep (fun i ins hins => h.row_lt_of_instr hins)
      (fun i ins hins hop site hsite => hroom i ins hins hop site hsite) harenas
      (fun _ => (Arena.Shaped.checkShapes_eq_ok_iff (P := t.program) hb'.shaped).mpr
        ⟨hfit', hsizes⟩)
  have hreplay {options : Options} {b : Buffer F} (hb : b.Fits t) {out : Except Stop Unit}
      {d : Core F} (hleads : Replay.Leads (Replay.sweep t.program q mask resolved options)
        ⟨b.arena, none, #[]⟩ out d) :
      Replay.Leads (t.replay b.rows q mask resolved options) ⟨b.arena, none, #[]⟩ out d :=
    (Replay.leads_require (by simpa using hstop)).bind
      ((Replay.leads_require hb.rows).bind hleads)
  exact hsweep.imp (hreplay hb) (hreplay hb')

/-- Where the sweep of the originals comes to its end, so does that of their copies, and it leaves
copies. -/
theorem Spells.sweep_copies (h : t.Spells items tail) (hstop : t.isStopped = true) (hb : b.Fits t)
    (hb' : b'.Fits t) (hq : q < b.layout.capOrder) (hq' : q < b'.layout.capOrder)
    (hroom : t.RoomOk q b'.layout.directions) {s : Nat → Nat}
    (hs : ∀ l < b'.layout.directions, s l < b.layout.directions)
    (hsame : ∀ l < b'.layout.directions, t.SameSeries q b' l b (s l)) {options : Options}
    (hnone : (t.sweep q b mask resolved options).stop = none) (options' : Options) :
    let run := t.sweep q b mask resolved options
    let run' := t.sweep q b' mask resolved options'
    run'.stop = none ∧ ∀ l < b'.layout.directions,
      t.SameSeries q (b'.withCells run'.cells) l (b.withCells run.cells) (s l) := by
  intro run run'
  have hshapes := checkShapes_of_sweep hstop hb hnone
  rcases h.copiedAt_replay hstop hb hb' hq hq' hroom hshapes hs hsame options options' with
    ⟨_, d, d', hd, hd', hcores⟩ | ⟨f, d, hd⟩ | ⟨name, k, l, d, hd, -⟩
  · obtain ⟨-, hcells, -⟩ := @Replay.run_of_leads F _ _ none _ hd
    obtain ⟨hstop', hcells', -⟩ := @Replay.run_of_leads F _ _ none _ hd'
    have hleft : (b.withCells run.cells).arena = d.arena := by
      show (⟨b.layout, run.cells⟩ : Arena F) = d.arena
      rw [show run.cells = d.arena.cells from hcells, show b.layout = d.arena.layout from
        hcores.arenas.layout.symm]
    have hleft' : (b'.withCells run'.cells).arena = d'.arena := by
      show (⟨b'.layout, run'.cells⟩ : Arena F) = d'.arena
      rw [show run'.cells = d'.arena.cells from hcells', show b'.layout = d'.arena.layout from
        hcores.arenas.copy_layout.symm]
    have hfits : (b.withCells run.cells).Fits t := ⟨hb.rows, hleft ▸ hcores.arenas.fits.toShaped⟩
    have hfits' : (b'.withCells run'.cells).Fits t :=
      ⟨hb'.rows, hleft' ▸ hcores.arenas.copy_fits.toShaped⟩
    refine ⟨hstop', fun l hl => (sameSeries_iff hfits' hfits hq' hq hl (hs l hl)).mpr ?_⟩
    rw [hleft, hleft']
    exact hcores.arenas.jets l hl
  · cases hnone.symm.trans (@Replay.run_of_leads F _ _ (some (.fault f)) _ hd).1
  · cases hnone.symm.trans (@Replay.run_of_leads F _ _ (some (.refused name k l)) _ hd).1

/-- Where an operator refuses along a direction of the originals, the direction is one of theirs,
and if it has a copy that is the only one, the operator refuses the copy. -/
theorem Spells.sweep_refused_copy (h : t.Spells items tail) (hstop : t.isStopped = true)
    (hb : b.Fits t) (hb' : b'.Fits t) (hq : q < b.layout.capOrder) (hq' : q < b'.layout.capOrder)
    (hroom : t.RoomOk q b'.layout.directions) {s : Nat → Nat}
    (hs : ∀ l < b'.layout.directions, s l < b.layout.directions)
    (hsame : ∀ l < b'.layout.directions, t.SameSeries q b' l b (s l)) {options : Options}
    {name : String} {k d : Nat}
    (hrefused : (t.sweep q b mask resolved options).stop = some (.refused name k d))
    (options' : Options) : d < b.layout.directions ∧ (b'.layout.directions = 1 → s 0 = d →
      (t.sweep q b' mask resolved options').stop = some (.refused name k 0)) := by
  cases hshapes : Replay.checkShapes t.program q mask resolved b.arena with
  | error f => cases hrefused.symm.trans (sweep_of_checkShapes_error hstop hb hshapes options).1
  | ok u =>
    rcases h.copiedAt_replay hstop hb hb' hq hq' hroom hshapes hs hsame options options' with
      ⟨_, c, c', hc, -⟩ | ⟨f, c, hc⟩ | ⟨name, k, l, c, hc, hl, hcopy⟩
    · cases hrefused.symm.trans (@Replay.run_of_leads F _ _ none _ hc).1
    · cases hrefused.symm.trans (@Replay.run_of_leads F _ _ (some (.fault f)) _ hc).1
    · cases hrefused.symm.trans (@Replay.run_of_leads F _ _ (some (.refused name k l)) _ hc).1
      refine ⟨hl, fun hone hsource => ?_⟩
      obtain ⟨c', hc'⟩ := hcopy hone hsource
      exact (@Replay.run_of_leads F _ _ (some (.refused name k 0)) _ hc').1

/-- Sweeps of directions that are copies up to order `q`, whatever the layouts. A sweep that comes
to its end leaves them copies. Where an operator refuses along a direction, the direction alone is
refused too. -/
theorem sweep_directions (ht : t.Recorded) (hstop : t.isStopped = true) (hb : b.Fits t)
    (hb' : b'.Fits t) (hq : q < b.layout.capOrder) (hq' : q < b'.layout.capOrder)
    (hroom : t.RoomOk q b.layout.directions) (hroom' : t.RoomOk q b'.layout.directions)
    {s : Nat → Nat} (hs : ∀ l < b'.layout.directions, s l < b.layout.directions)
    (hsame : ∀ l < b'.layout.directions, t.SameSeries q b' l b (s l)) (options options' : Options) :
    let run := t.sweep q b mask resolved options
    let run' := t.sweep q b' mask resolved options'
    (run.stop = none → run'.stop = none ∧ ∀ l < b'.layout.directions,
      t.SameSeries q (b'.withCells run'.cells) l (b.withCells run.cells) (s l)) ∧
    ∀ name k d, run.stop = some (.refused name k d) → d < b.layout.directions ∧
      ∀ c : Buffer F, c.Fits t → c.layout.directions = 1 → q < c.layout.capOrder →
        t.SameSeries q c 0 b d →
        (t.sweep q c mask resolved options').stop = some (.refused name k 0) := by
  intro run run'
  obtain ⟨items, tail, h⟩ := ht.spells
  constructor
  · intro hnone
    exact h.sweep_copies hstop hb hb' hq hq' hroom' hs hsame hnone options'
  · intro name k d hrefused
    have hd := (h.sweep_refused_copy hstop hb hb' hq hq' hroom' hs hsame hrefused options').1
    refine ⟨hd, fun c hc hone hcap halone => ?_⟩
    refine (h.sweep_refused_copy hstop hb hc hq hcap (hroom.mono (by omega)) (s := fun _ => d)
      (fun _ _ => hd) (fun l hl => ?_) hrefused options').2 hone rfl
    obtain rfl : l = 0 := by omega
    exact halone

end Tape

/-- An operator that refuses requests with a five among the arguments. -/
def Operator.picky : Operator ℚ where
  name := "picky"
  forward request :=
    if request.args.contains 5 then .refuse else .accept ⟨request.results, rfl⟩

def pickyTape : Tape ℚ := .ofSession (sampleSession .picky)

/-- The sample buffer with a steeper first independent along direction 1. -/
def steepBuffer : Buffer ℚ := sampleBuffer.withCells (sampleBuffer.cells.setIfInBounds 7 4)

/-- Three directions copied from directions 1, 0 and 0 of the steep buffer, with an order more. -/
def wideBuffer : Buffer ℚ := ⟨⟨⟨4, 3⟩, (Array.replicate 90 1).setIfInBounds 11 4⟩, 9⟩

/-- Direction 1 of the steep buffer alone, with an order less. -/
def loneBuffer : Buffer ℚ := ⟨⟨⟨2, 1⟩, (Array.replicate 18 1).setIfInBounds 3 4⟩, 9⟩

namespace Tape

theorem sampleTape_sweep_directions :
    (let run := sampleTape.sweep 1 steepBuffer sampleMask #[3] {}
      let run' := sampleTape.sweep 1 wideBuffer sampleMask #[3] {}
      run'.stop = none ∧ ∀ l < 3, sampleTape.SameSeries 1 (wideBuffer.withCells run'.cells) l
        (steepBuffer.withCells run.cells) (1 - l)) ∧
    (pickyTape.sweep 1 steepBuffer sampleMask #[3] {}).stop = some (.refused "picky" 1 1) ∧
      (pickyTape.sweep 1 loneBuffer sampleMask #[3] {}).stop = some (.refused "picky" 1 0) := by
  have hrefused : (pickyTape.sweep 1 steepBuffer sampleMask #[3] {}).stop =
      some (.refused "picky" 1 1) := by
    decide +kernel
  refine ⟨?_, hrefused, ?_⟩
  · exact (sweep_directions (s := fun l => 1 - l) sampleTape_recorded (by decide +kernel)
      (by decide +kernel) (by decide +kernel) (by decide) (by decide) (by decide +kernel)
      (by decide +kernel) (by decide) (by decide +kernel) {} {}).1 (by decide +kernel)
  · have ht : pickyTape.Recorded := ofSession_recorded (by decide +kernel)
    have hfit : steepBuffer.Fits pickyTape := by decide +kernel
    have hroom : pickyTape.RoomOk 1 2 := by decide +kernel
    have hsame : ∀ l < 2, pickyTape.SameSeries 1 steepBuffer l steepBuffer (id l) :=
      fun _ _ _ _ _ _ => rfl
    obtain ⟨-, halone⟩ := (sweep_directions ht (by decide +kernel) hfit hfit (by decide)
      (by decide) hroom hroom (fun _ hl => hl) hsame {} {}).2 _ _ _ hrefused
    exact halone loneBuffer (by decide +kernel) rfl (by decide) (by decide +kernel)

end Tape

end JetTape
