import JetTape.Proofs.Replay.Passing
import JetTape.Proofs.Sweep.Openings
import JetTape.Proofs.Sweep.Orders
import JetTape.Proofs.Tape.Overflow

/-!
Skipping a dead branch. If no instruction that is replayed depends on a row of a skipped one, sweeps
that skip come to their end where sweeps of all instructions do, with the same coefficients on all
rows but those of the skipped instructions, which keep what they held.
-/
namespace JetTape

open Arena (SameShape)
open Jet (SameOn)
open Replay (Leads ended)

variable {F : Type}

namespace Tape

/-- The row belongs to a skipped instruction. What comes before the sweep's first instruction is not
skipped, whatever the mask marks there. -/
def SkippedRow (t : Tape F) (mask : Array Bool) (v : Nat) : Prop :=
  ∃ i ins, t.independents < i ∧ t.instr i = .ok ins ∧ t.Skipped mask i ∧ ins.Owns v

/-- What is skipped is dead: no other instruction depends on a row of a skipped one, given the
coefficients of order 0. -/
def SkipsDead [Scalar F] (t : Tape F) (mask : Array Bool) (resolved : Array Nat) (j : Jet F) :
    Prop :=
  ∀ i ins, t.instr i = .ok ins → ¬ t.Skipped mask i → ∀ v ∈ j.operands t.params resolved ins,
    ¬ t.SkippedRow mask v

section Decidable

instance (t : Tape F) (mask : Array Bool) (v : Nat) : Decidable (t.SkippedRow mask v) :=
  decidable_of_iff (∃ i, i < t.ops.size ∧ t.independents < i ∧ t.Skipped mask i ∧
      ¬ ∀ ins, t.instr i = .ok ins → ¬ ins.Owns v)
    ⟨fun ⟨i, _, hi, hskipped, hins⟩ => by
        simp only [not_forall, not_not] at hins
        obtain ⟨ins, hins, howns⟩ := hins
        exact ⟨i, ins, hi, hins, hskipped, howns⟩,
      fun ⟨i, ins, hi, hins, hskipped, howns⟩ =>
        ⟨i, lt_of_instr hins, hi, hskipped, fun h => h ins hins howns⟩⟩

instance [Scalar F] (t : Tape F) (mask : Array Bool) (resolved : Array Nat) (j : Jet F) :
    Decidable (t.SkipsDead mask resolved j) :=
  decidable_of_iff (∀ i < t.ops.size, ∀ ins, t.instr i = .ok ins → ¬ t.Skipped mask i →
      ∀ v ∈ j.operands t.params resolved ins, ¬ t.SkippedRow mask v)
    ⟨fun h i ins hins => h i (lt_of_instr hins) ins hins, fun h i _ => h i⟩

end Decidable

section Blocks

variable {t : Tape F} {n p m k : Nat} {mask : Array Bool}

theorem markersBefore_mono {i j : Nat} (h : i ≤ j) : t.markersBefore i ≤ t.markersBefore j :=
  (List.take_sublist_take_left h).count_le _

/-- Inside a block and at its end there is one marker more before than at its beginning. -/
theorem InBlock.markers_eq {o i : Nat} (h : t.InBlock o i) (hne : o ≠ i) :
    t.markersBefore i = t.markersBefore o + 1 := by
  have hnext := markersBefore_succ h.marker
  rw [if_pos rfl] at hnext
  have hle := h.le
  have hmono : t.markersBefore (o + 1) ≤ t.markersBefore i := markersBefore_mono (by omega)
  have hend := h.before_end
  omega

/-- An instruction belongs to one block only, for two opening markers have a closing one between
them. -/
theorem InBlock.unique {o o' i : Nat} (h : t.InBlock o i) (h' : t.InBlock o' i) : o = o' := by
  have not_lt {o o' : Nat} (h : t.InBlock o i) (h' : t.InBlock o' i) : ¬ o < o' := by
    intro hlt
    have hnext := markersBefore_succ h.marker
    rw [if_pos rfl] at hnext
    have hmono : t.markersBefore (o + 1) ≤ t.markersBefore o' := markersBefore_mono hlt
    have hmono' : t.markersBefore o' ≤ t.markersBefore i := markersBefore_mono h'.le
    have hend := h.before_end
    have hopens := h.opens
    have hopens' := h'.opens
    omega
  have := not_lt h h'
  have := not_lt h' h
  omega

/-- An item after an even number of markers is skipped as a whole, if its first instruction is
marked. -/
theorem MaskOk.skipped_iff (hmask : t.MaskOk mask) {pre post : List Instr} {item : Item}
    (hitem : item.Valid n p m k)
    (hops : t.ops.toList = (pre ++ item.instrs ++ post).map (·.op))
    (heven : (pre.map (·.op)).count .callMarker % 2 = 0) {c : Nat} (hc : c < item.size) :
    t.Skipped mask (pre.length + c) ↔ mask.getD pre.length false = true := by
  cases item with
  | plain ins =>
    obtain rfl : c = 0 := by simpa [Item.size, Item.instrs] using hc
    refine ⟨?_, Or.inl⟩
    rintro (hmark | ⟨o, hin, -⟩)
    · exact hmark
    · have hop : t.ops[pre.length]? = some ins.op := by
        rw [← Array.getElem?_toList, hops]
        simp [Item.instrs]
      have hplain := hitem.1.isPlain
      have hne : o ≠ pre.length + 0 := by
        rintro rfl
        have hmarker := hin.marker
        rw [Nat.add_zero, hop] at hmarker
        rw [Option.some.inj hmarker] at hplain
        cases hplain
      have hcount := markersBefore_append ((List.append_assoc ..) ▸ hops)
      have hodd := hin.markers_eq hne
      rw [Nat.add_zero, hcount] at hodd
      have hopens := hin.opens
      omega
  | call b =>
    have hin := inBlock_of_block hitem hops heven hc
    refine ⟨?_, fun hmark => Or.inr ⟨_, hin, hmark⟩⟩
    rintro (hmark | ⟨o, hin', hmark⟩)
    · by_contra hopen
      rw [hmask.blocks _ _ hin (by simpa using hopen)] at hmark
      cases hmark
    · rwa [hin'.unique hin] at hmark

variable {q : Nat} {resolved : Array Nat}

/-- A sweep passes over the rows of the skipped instructions, and over no other rows. -/
theorem MaskOk.passedRow_iff (hmask : t.MaskOk mask) {pre post : List Instr} {items : List Item}
    (hitems : ValidItems p m k n items)
    (hops : t.ops.toList = (pre ++ instrsOf items ++ post).map (·.op))
    (heven : (pre.map (·.op)).count .callMarker % 2 = 0) {c v : Nat} {ins : Instr}
    (hins : (instrsOf items)[c]? = some ins) (howns : ins.Owns v) :
    (t.plan q mask resolved).PassedRow pre.length n items v ↔ t.Skipped mask (pre.length + c) := by
  induction items generalizing pre n c with
  | nil => cases hins
  | cons item rest ih =>
    obtain ⟨hitem, hrest⟩ := hitems
    have hops' : t.ops.toList = (pre ++ item.instrs ++ (instrsOf rest ++ post)).map (·.op) := by
      simpa using hops
    rw [Plan.PassedRow]
    rw [instrsOf_cons] at hins
    by_cases hhere : c < item.instrs.length
    · rw [List.getElem?_append_left hhere] at hins
      have hbounds := hitem.placed.owner_bounds (List.mem_of_getElem? hins) howns.1 howns.2
      rw [hmask.skipped_iff hitem hops' heven hhere]
      constructor
      · rintro (⟨hmark, -⟩ | hlater)
        · exact hmark
        · have := hlater.le
          omega
      · exact fun hmark => Or.inl ⟨hmark, hbounds⟩
    · obtain ⟨d, rfl⟩ := Nat.exists_eq_add_of_le (Nat.le_of_not_lt hhere)
      rw [List.getElem?_append_right (Nat.le_add_right _ _), Nat.add_sub_cancel_left] at hins
      have hbounds := hrest.placed.owner_bounds (List.mem_of_getElem? hins) howns.1 howns.2
      have heven' : ((pre ++ item.instrs).map (·.op)).count .callMarker % 2 = 0 := by
        rw [List.map_append, List.count_append]
        have := count_item hitem
        omega
      have hiff : (t.plan q mask resolved).PassedRow (pre ++ item.instrs).length
          (n + rowCount item.instrs) rest v ↔ t.Skipped mask ((pre ++ item.instrs).length + d) :=
        ih hrest (by simpa using hops) heven' hins
      rw [List.length_append, Nat.add_assoc] at hiff
      rw [← hiff]
      refine ⟨?_, Or.inr⟩
      rintro (⟨-, -, hlt⟩ | hpassed)
      · omega
      · exact hpassed

end Blocks

section Spelled

variable {t : Tape F} {items : List Item} {tail : List Instr} {q : Nat} {mask : Array Bool}
  {resolved : Array Nat}

/-- A sweep passes over a row if the instruction that owns it is skipped. -/
theorem Spells.passedRow_iff (h : t.Spells items tail) (hc : t.Countable) (hmask : t.MaskOk mask)
    {i v : Nat} {ins : Instr} (hi : t.independents < i) (hins : t.instr i = .ok ins)
    (howns : ins.Owns v) :
    (t.plan q mask resolved).PassedRow (t.independents + 1) (1 + t.independents) items v ↔
      t.Skipped mask i := by
  rcases h.place_of_instr hc hins with ⟨hle, -⟩ | ⟨c, rfl, hget⟩ | hstop
  · omega
  · rw [← length_headInstrs t.independents]
    exact hmask.passedRow_iff h.valid h.ops_eq (by rw [count_headInstrs]) hget howns
  · have hlt := howns.1
    have hle := howns.2
    rw [hstop] at hlt
    simp only [Opcode.resultCount] at hlt
    omega

theorem Spells.skippedRow_iff (h : t.Spells items tail) (hc : t.Countable) (hmask : t.MaskOk mask)
    {v : Nat} : t.SkippedRow mask v ↔
      (t.plan q mask resolved).PassedRow (t.independents + 1) (1 + t.independents) items v := by
  constructor
  · rintro ⟨i, ins, hi, hins, hskipped, howns⟩
    exact (h.passedRow_iff hc hmask hi hins howns).mpr hskipped
  · intro hpassed
    obtain ⟨ins, hmem, howns⟩ := h.valid.placed.exists_owner hpassed.le hpassed.lt
    obtain ⟨c, hlt, rfl⟩ := List.getElem_of_mem hmem
    have hholds := (Program.holds_append.mp (Program.holds_append.mp (h.program_holds hc)).1).2
    rw [Nat.zero_add, length_headInstrs] at hholds
    have hi : t.independents < t.independents + 1 + c := by omega
    exact ⟨_, _, hi, hholds c hlt, (h.passedRow_iff hc hmask hi (hholds c hlt) howns).mp hpassed,
      howns⟩

/-- An instruction that is not skipped owns no skipped row. -/
theorem Spells.not_skippedRow (h : t.Spells items tail) (hc : t.Countable) (hmask : t.MaskOk mask)
    {i v : Nat} {ins : Instr} (hins : t.instr i = .ok ins) (hlive : t.independents < i →
      ¬ t.Skipped mask i) (howns : ins.Owns v) : ¬ t.SkippedRow mask v := by
  intro hrow
  have hpassed : (t.plan 0 mask #[]).PassedRow (t.independents + 1) (1 + t.independents) items v :=
    (h.skippedRow_iff hc hmask).mp hrow
  rcases Nat.lt_or_ge t.independents i with hi | hi
  · exact hlive hi ((h.passedRow_iff hc hmask hi hins howns).mp hpassed)
  · have hle := hpassed.le
    have hown := howns.2
    rcases h.place_of_instr hc hins with ⟨-, hrow, -⟩ | ⟨c, rfl, -⟩ | hstop
    · omega
    · omega
    · have hlt := howns.1
      rw [hstop] at hlt
      simp only [Opcode.resultCount] at hlt
      omega

theorem Spells.lt_rows_of_owns (h : t.Spells items tail) (hc : t.Countable) {i v : Nat}
    {ins : Instr} (hins : t.instr i = .ok ins) (howns : ins.Owns v) : v < t.rows := by
  have hrows := h.rows
  have hlt := howns.1
  have hle := howns.2
  rcases h.place_of_instr hc hins with ⟨hi, hrow, -⟩ | ⟨c, -, hget⟩ | hop
  · omega
  · have := (h.valid.placed.owner_bounds (List.mem_of_getElem? hget) hlt hle).2
    omega
  · rw [hop] at hlt
    simp only [Opcode.resultCount] at hlt
    omega

variable [Scalar F]

/-- Where what is skipped is dead, an item that is not passed over depends on rows of instructions
that are not skipped and owns such rows. -/
theorem Spells.inside (h : t.Spells items tail) (hc : t.Countable) (hmask : t.MaskOk mask)
    {j : Jet F} (hdead : t.SkipsDead mask resolved j) {before after : List Item} {item : Item}
    (hitems : items = before ++ item :: after)
    (hmark : mask.getD (t.independents + 1 + (instrsOf before).length) false = false) :
    (t.plan q t.noSkip resolved).Inside (fun v => ¬ t.SkippedRow mask v)
      (fun v => ¬ t.SkippedRow mask v) j item := by
  let pre := headInstrs t.independents ++ instrsOf before
  have hlen : pre.length = t.independents + 1 + (instrsOf before).length := by
    rw [List.length_append, length_headInstrs]
  have hlist : headInstrs t.independents ++ instrsOf items ++ tail =
      pre ++ item.instrs ++ (instrsOf after ++ tail) := by
    rw [hitems]
    simp [pre]
  have hvalid := h.valid
  rw [hitems, validItems_append] at hvalid
  have hops := h.ops_eq
  have hholds := h.program_holds hc
  rw [hlist] at hops hholds
  have hthere := (Program.holds_append.mp (Program.holds_append.mp hholds).1).2
  rw [Nat.zero_add] at hthere
  have heven : (pre.map (·.op)).count .callMarker % 2 = 0 := by
    rw [List.map_append, List.count_append, count_headInstrs, Nat.zero_add]
    exact count_items hvalid.1
  rw [← hlen] at hmark
  intro ins hmem
  obtain ⟨c, hlt, rfl⟩ := List.getElem_of_mem hmem
  have hlive : ¬ t.Skipped mask (pre.length + c) := by
    rw [hmask.skipped_iff hvalid.2.1 hops heven hlt, hmark]
    exact Bool.false_ne_true
  exact ⟨hdead _ _ (hthere c hlt) hlive,
    fun v howns => h.not_skippedRow hc hmask (hthere c hlt) (fun _ => hlive) howns⟩

/-- The arena of sweeps of all instructions beside that of sweeps that skip. Both were `a₀` before
the sweeps. -/
structure Beside (t : Tape F) (mask : Array Bool) (a₀ a a' : Arena F) : Prop where
  shape : SameShape a₀ a
  shape' : SameShape a₀ a'
  same : ∀ l < a₀.layout.directions,
    SameOn (fun v => ¬ t.SkippedRow mask v) (a.jet l) (a'.jet l)
  values : ∀ l < a₀.layout.directions, ∀ v, a.jet l v 0 = a₀.jet l v 0
  kept : ∀ l < a₀.layout.directions, ∀ v, t.SkippedRow mask v → a'.jet l v = a₀.jet l v

theorem Beside.refl (t : Tape F) (mask : Array Bool) (a : Arena F) : t.Beside mask a a a where
  shape := .refl a
  shape' := .refl a
  same _ _ := .refl _ _
  values _ _ _ := rfl
  kept _ _ _ _ := rfl

section Orders

variable {a₀ a a' : Arena F}

/-- If the sweep of all instructions comes to its end, so does the sweep that skips. -/
theorem Spells.leads_beside (h : t.Spells items tail) (hc : t.Countable)
    (hstop : t.isStopped = true) (hsize : mask.size = t.ops.size) (hmask : t.MaskOk mask)
    (hloads : t.LoadsOk resolved) (ha : a₀.Shaped t.rows)
    (hdead : t.SkipsDead mask resolved (a₀.jet 0)) (options options' : Options) (hpos : 0 < q)
    (hq : q < a₀.layout.capOrder) (hbeside : t.Beside mask a₀ a a')
    (requests requests' : Array (Request F)) :
    ∃ stop a₁ asked,
      Leads (t.replay t.rows q t.noSkip resolved options) ⟨a, none, requests⟩ (ended stop)
        ⟨a₁, none, asked⟩ ∧
      (stop = none → ∃ a₁' asked',
        Leads (t.replay t.rows q mask resolved options') ⟨a', none, requests'⟩ (.ok ())
          ⟨a₁', none, asked'⟩ ∧ t.Beside mask a₀ a₁ a₁') := by
  have hshaped := hbeside.shape.shaped ha
  have hshaped' := hbeside.shape'.shaped ha
  cases hshapes : Replay.checkShapes t.program q t.noSkip resolved a with
  | error f => exact ⟨_, a, requests, leads_replay_fault hstop hshapes options requests, nofun⟩
  | ok u =>
    obtain ⟨-, -, hresolved⟩ :=
      (Arena.Shaped.checkShapes_eq_ok_iff (P := t.program) hshaped).mp hshapes
    have hshapes' : Replay.checkShapes t.program q mask resolved a' = .ok () :=
      (Arena.Shaped.checkShapes_eq_ok_iff (P := t.program) hshaped').mpr
        ⟨⟨hshaped', hpos, by rw [hbeside.shape'.layout]; exact hq⟩, hsize, hresolved⟩
    obtain ⟨a₁, hshape, hjets, hleads⟩ := h.leads_replay hc hstop hshaped hshapes
      (maskOk_noSkip t) hloads options requests
    obtain ⟨a₁', hshape', hjets', hleads'⟩ := h.leads_replay hc hstop hshaped' hshapes' hmask
      hloads options' requests'
    rw [hbeside.shape.layout] at hjets hleads
    rw [hbeside.shape'.layout] at hjets' hleads'
    refine ⟨_, a₁, _, hleads, fun hnone => ?_⟩
    have hvalues : ∀ l < a₀.layout.directions, ∀ v, a₀.jet 0 v 0 = a.jet l v 0 := by
      intro l hl v
      rw [hbeside.values l hl v, Arena.jet_zero ha.directed hl]
    obtain ⟨hnone', hsame⟩ := Plan.sameOn_replayItems (p := t.plan q t.noSkip resolved) hpos
      (marks_noSkip t q resolved) hbeside.same hvalues h.valid
      (fun v hv hlive => hlive ((h.skippedRow_iff hc hmask).mpr hv))
      (fun before item after hitems hmark => h.inside hc hmask hdead hitems hmark) hnone
    have hmasked : (t.plan q t.noSkip resolved).withMask mask = t.plan q mask resolved := rfl
    rw [hmasked] at hnone' hsame
    rw [hnone'] at hleads'
    refine ⟨a₁', _, hleads', hbeside.shape.trans hshape, hbeside.shape'.trans hshape', ?_, ?_, ?_⟩
    · intro l hl
      rw [hjets l hl, hjets' l hl]
      exact hsame l hl
    · intro l hl v
      rw [hjets l hl, Plan.replayItems_of_ne h.valid (Or.inl (Nat.ne_of_lt hpos)),
        hbeside.values l hl v]
    · intro l hl v hrow
      have hpassed : (t.plan q mask resolved).PassedRow (t.independents + 1) (1 + t.independents)
          items v := (h.skippedRow_iff hc hmask).mp hrow
      rw [← hbeside.kept l hl v hrow, hjets' l hl]
      exact funext fun k => Plan.replayItems_of_ne h.valid (Or.inr (Or.inr (Or.inr hpassed)))

/-- The same holds of sweeps of `n` orders from order `i` on. -/
theorem Spells.leads_orders_beside (h : t.Spells items tail) (hc : t.Countable)
    (hstop : t.isStopped = true) (hsize : mask.size = t.ops.size) (hmask : t.MaskOk mask)
    (hloads : t.LoadsOk resolved) (ha : a₀.Shaped t.rows)
    (hdead : t.SkipsDead mask resolved (a₀.jet 0)) (options options' : Options) {n i : Nat}
    (hpos : 0 < i) (hcap : i + n ≤ a₀.layout.capOrder) (hbeside : t.Beside mask a₀ a a')
    (requests requests' : Array (Request F)) :
    ∃ stop a₁ asked,
      Leads (Loop.each n i fun q => t.replay t.rows q t.noSkip resolved options)
        ⟨a, none, requests⟩ (ended stop) ⟨a₁, none, asked⟩ ∧
      (stop = none → ∃ a₁' asked',
        Leads (Loop.each n i fun q => t.replay t.rows q mask resolved options')
          ⟨a', none, requests'⟩ (.ok ()) ⟨a₁', none, asked'⟩ ∧ t.Beside mask a₀ a₁ a₁') := by
  induction n generalizing i a a' requests requests' with
  | zero =>
    exact ⟨none, a, requests, Replay.leads_pure (),
      fun _ => ⟨a', requests', Replay.leads_pure (), hbeside⟩⟩
  | succ n ih =>
    obtain ⟨stop, a₁, asked, hfirst, hbeside₁⟩ := h.leads_beside hc hstop hsize hmask hloads ha
      hdead options options' hpos (by omega) hbeside requests requests'
    cases stop with
    | some stop => exact ⟨some stop, a₁, asked, hfirst.bind_error, nofun⟩
    | none =>
      obtain ⟨a₁', asked', hfirst', hbeside₁⟩ := hbeside₁ rfl
      obtain ⟨stop, a₂, asked₂, hlater, hbeside₂⟩ := ih (i := i + 1) (by omega) (by omega)
        hbeside₁ asked asked'
      refine ⟨stop, a₂, asked₂, hfirst.bind hlater, fun hnone => ?_⟩
      obtain ⟨a₂', asked₂', hlater', hbeside₂⟩ := hbeside₂ hnone
      exact ⟨a₂', asked₂', hfirst'.bind hlater', hbeside₂⟩

end Orders

end Spelled

variable [Scalar F] {t : Tape F} {b : Buffer F} {qMax : Nat} {mask : Array Bool}
  {resolved : Array Nat}

/-- Skipping a dead branch is sound. If the sweeps of all orders up to `qMax` come to their end
without a mask, they do so with a mask that skips a dead branch only. The rows of instructions that
are not skipped hold the same coefficients in the end, and the rows of skipped ones hold what they
held before. -/
theorem sweepOrders_skips (ht : t.Recorded) (hstop : t.isStopped = true) (hc : t.Countable)
    (hb : b.Fits t) (hsize : mask.size = t.ops.size) (hmask : t.MaskOk mask)
    (hloads : t.LoadsOk resolved) (hdead : t.SkipsDead mask resolved (b.arena.jet 0))
    (options options' : Options)
    (hnone : (t.sweepOrders qMax b t.noSkip resolved options).stop = none) :
    let run := t.sweepOrders qMax b t.noSkip resolved options
    let run' := t.sweepOrders qMax b mask resolved options'
    run'.stop = none ∧
      (∀ i ins v, t.instr i = .ok ins → (t.independents < i → ¬ t.Skipped mask i) → ins.Owns v →
        ∀ k ≤ qMax, ∀ l < b.layout.directions,
          (b.withCells run'.cells).get v k l = (b.withCells run.cells).get v k l) ∧
      ∀ i ins v, t.instr i = .ok ins → t.independents < i → t.Skipped mask i → ins.Owns v →
        ∀ k < b.layout.capOrder, ∀ l < b.layout.directions,
          (b.withCells run'.cells).get v k l = b.get v k l := by
  intro run run'
  obtain ⟨items, tail, h⟩ := ht.spells
  have hcap : qMax < b.layout.capOrder := by
    by_contra hcap
    have hfault : Leads (t.replayOrders b qMax t.noSkip resolved options) ⟨b.arena, none, #[]⟩
        (ended (some (.fault (.orderPastBuffer qMax)))) ⟨b.arena, none, #[]⟩ :=
      (Replay.leads_fault (by simp only [require, if_neg hcap])).bind_error
    cases (Replay.run_of_leads hfault).1.symm.trans hnone
  have horders : 1 + qMax ≤ b.arena.layout.capOrder := by rw [Nat.add_comm]; exact hcap
  obtain ⟨stop, a, asked, hleads, hbeside⟩ := h.leads_orders_beside hc hstop hsize hmask hloads
    hb.shaped hdead options options' Nat.one_pos horders (.refl t mask b.arena) #[] #[]
  have hbegin {mask : Array Bool} {options : Options} {c : Core F} (out : Option Stop)
      (hleads : Leads (Loop.each qMax 1 fun q => t.replay t.rows q mask resolved options)
        ⟨b.arena, none, #[]⟩ (ended out) c) :
      Leads (t.replayOrders b qMax mask resolved options) ⟨b.arena, none, #[]⟩ (ended out) c := by
    apply (Replay.leads_require hcap).bind
    rw [hb.rows]
    exact hleads
  obtain ⟨hended, hcells, -⟩ := Replay.run_of_leads (hbegin stop hleads)
  obtain ⟨a', asked', hleads', hbeside⟩ := hbeside (hended.symm.trans hnone)
  obtain ⟨hnone', hcells', -⟩ := Replay.run_of_leads (hbegin none hleads')
  have harena : (b.withCells run.cells).arena = a := hbeside.shape.withCells_eq hcells
  have harena' : (b.withCells run'.cells).arena = a' := hbeside.shape'.withCells_eq hcells'
  have hfits : (b.withCells run.cells).Fits t := hb.withCells (harena ▸ hbeside.shape)
  have hfits' : (b.withCells run'.cells).Fits t := hb.withCells (harena' ▸ hbeside.shape')
  refine ⟨hnone', ?_, ?_⟩
  · intro i ins v hins hlive howns k hk l hl
    have hv := h.lt_rows_of_owns hc hins howns
    have hk : k < b.layout.capOrder := by omega
    rw [hfits.get_eq hv hk hl, hfits'.get_eq hv hk hl, harena, harena',
      (hbeside.same l hl).rows v (h.not_skippedRow hc hmask hins hlive howns)]
  · intro i ins v hins hi hskipped howns k hk l hl
    have hv := h.lt_rows_of_owns hc hins howns
    rw [hb.get_eq hv hk hl, hfits'.get_eq hv hk hl, harena',
      hbeside.kept l hl v ⟨i, ins, hi, hins, hskipped, howns⟩]

/-- A tape with a product, a call on it, and a conditional that chooses between the two. -/
def branchTape : Tape ℚ :=
  .ofSession [.independents 2, .parameter 3, .register .echo,
    .operation (.arithmetic .mulVV) [1, 2], .call 0 7 [.var 3] [.var],
    .choose .lt (.var 4) (.par 0) (.var 3) (.var 4), .finish]

/-- A mask that skips the call. What it marks in the head is of no consequence. -/
def branchMask : Array Bool :=
  #[true, false, true, false, true, false, true, false, false, false]

/-- A buffer for that tape: orders below 3, two directions, ones everywhere. -/
def branchBuffer : Buffer ℚ := ⟨⟨⟨3, 2⟩, Array.replicate 30 1⟩, 6⟩

/-- The result of the call is compared at order 0, but it is not chosen. -/
theorem branchTape_sweepOrders_skips :
    let run := branchTape.sweepOrders 2 branchBuffer branchTape.noSkip #[] {}
    let run' := branchTape.sweepOrders 2 branchBuffer branchMask #[] {}
    run.stop = none ∧ run'.stop = none ∧
      (∀ k ≤ 2, ∀ l < 2,
        (branchBuffer.withCells run'.cells).get 5 k l =
          (branchBuffer.withCells run.cells).get 5 k l) ∧
      ∀ k < 3, ∀ l < 2,
        (branchBuffer.withCells run'.cells).get 4 k l = branchBuffer.get 4 k l := by
  have hnone : (branchTape.sweepOrders 2 branchBuffer branchTape.noSkip #[] {}).stop = none := by
    decide +kernel
  obtain ⟨hnone', hlive, hskipped⟩ := sweepOrders_skips (ofSession_recorded (by decide))
    (by decide) ⟨by decide, by decide⟩ (by decide)
    (show branchMask.size = branchTape.ops.size by decide) (by decide)
    (by decide) (by decide) {} {} hnone
  refine ⟨hnone, hnone', ?_, ?_⟩
  · exact hlive 8 ⟨.choose, [0, 13, 4, 0, 3, 4], 5⟩ 5 (by decide) (by decide)
      (by decide)
  · exact hskipped 6 ⟨.callResult .var, [], 4⟩ 4 (by decide) (by decide)
      (by decide) (by decide)

/-- Behind `2 ^ 32` words an instruction may be read back with an operand that it was not recorded
with. No recorded operand is on row 2, yet skipping the instruction that owns it changes row 3. -/
theorem strayPair_skip_changes :
    let t := strayPair
    let mask := #[false, false, true, false, false, false]
    let run := t.sweepOrders 1 strayPairBuffer t.noSkip #[] {}
    let run' := t.sweepOrders 1 strayPairBuffer mask #[] {}
    t.Recorded ∧ t.isStopped = true ∧
      t.Lists [⟨.start, [0], 0⟩, ⟨.independent, [], 1⟩, ⟨.elementary .exp, [1], 2⟩,
        longSkip (filler [2]) 2, ⟨.elementary .exp, [1], 3⟩, ⟨.stop, [], 3⟩] ∧
      strayPairBuffer.Fits t ∧ mask.size = t.ops.size ∧ t.MaskOk mask ∧ t.LoadsOk #[] ∧
      run.stop = none ∧ (strayPairBuffer.withCells run.cells).get 3 1 0 = .ok 6 ∧
      (strayPairBuffer.withCells run'.cells).get 3 1 0 = .ok 15 := by
  intro t mask run run'
  have hlike : t.Alike _ := strayPair_alike
  have hsize : mask.size = t.ops.size := by
    rw [hlike.ops]
    decide
  have hrun : run = _ := hlike.sweepOrders_noSkip _ _ _ _
  have hrun' : run' = _ := hlike.sweepOrders _ _ _ _ _
  refine ⟨overfills_strayPair.recorded, hlike.isStopped.trans (by decide),
    strayPair_lists, hlike.fits (by decide), hsize, hlike.maskOk (by decide),
    hlike.loadsOk (by decide), ?_⟩
  rw [hrun, hrun']
  with_unfolding_all decide

end Tape

end JetTape
