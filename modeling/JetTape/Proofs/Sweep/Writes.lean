import JetTape.Proofs.Replay.Writes
import JetTape.Proofs.Sweep.Run

/-!
What a sweep may write. However a sweep of any program ends, it has changed order-`q` coefficients
of rows of instructions that it came to, and nothing else. On a recorded tape those rows lie past
the independents.
-/
namespace JetTape

open Arena (Within)

variable {F : Type}

/-- The instructions of a recorded tape own rows past the independents, from the first one after
them on. -/
theorem Tape.Spells.lt_of_owns {t : Tape F} {items : List Item} {tail : List Instr}
    (h : t.Spells items tail) {j v : Nat} {ins : Instr} (hins : t.instr j = .ok ins)
    (hj : t.independents + 1 ≤ j) (howns : ins.Owns v) : t.independents < v := by
  have hplaced : Placed (1 + t.independents) (instrsOf items ++ tail) := by
    refine placed_append.mpr ⟨h.valid.placed, ?_⟩
    rcases h.tail with rfl | rfl
    · trivial
    · have hrows := h.rows
      refine ⟨?_, trivial⟩
      simp only [Opcode.resultCount]
      omega
  -- The tables give the operation and the row, also where the arguments cannot be counted.
  obtain ⟨hop, hrow⟩ := Tape.of_instr hins
  rw [h.lists.ops, List.getElem?_toArray, List.getElem?_map, Option.map_eq_some_iff] at hop
  rw [h.lists.resultRows, List.getElem?_toArray, List.getElem?_map, Option.map_eq_some_iff] at hrow
  obtain ⟨listed, hlisted, hop⟩ := hop
  obtain ⟨listed', hlisted', hrow⟩ := hrow
  obtain rfl : listed = listed' := Option.some.inj (hlisted.symm.trans hlisted')
  have hlen : (headInstrs t.independents).length ≤ j := by rwa [length_headInstrs]
  rw [List.append_assoc, List.getElem?_append_right hlen] at hlisted
  have howns' : listed.Owns v := by rwa [Instr.Owns, hop, hrow]
  have hle := (hplaced.owner_bounds (List.mem_of_getElem? hlisted) howns'.1 howns'.2).1
  omega

namespace Replay

/-- The sweep of any program over any arena, with any mask, load table and options and however it
ends, has changed order-`q` coefficients of rows that instructions own which the sweep came to,
those of call results through the marker that closes their block, and nothing else. It comes to
unmarked instructions only. Other orders are as they were, and on a recorded tape so are the phantom
row and the independents. -/
theorem sweep_writes [Scalar F] (P : Program F) (q : Nat) (mask : Array Bool)
    (resolved : Array Nat) (options : Options) (a : Arena F) :
    let run := (sweep P q mask resolved options).run a
    let list := stations P q mask resolved options a
    let after : Arena F := ⟨a.layout, run.cells⟩
    run.cells.size = a.cells.size ∧
      (∀ i : Nat, run.cells[i]? ≠ a.cells[i]? → ∃ v l, q < a.layout.capOrder ∧
        l < a.layout.directions ∧ i = a.layout.cell v q l ∧ Written P v list) ∧
      (∀ j s, (j, s) ∈ list → mask[j]? = some false) ∧
      (∀ v k l, k ≠ q → after.get v k l = a.get v k l) ∧
      ∀ t : Tape F, t.Recorded → t.program = P → ∀ v ≤ t.independents, ∀ k l,
        after.get v k l = a.get v k l := by
  intro run list after
  have hwithin : Within q (fun v => Written P v list) a after := within_sweep
  refine ⟨hwithin.size, ?_, fun j s h => (le_of_mem_stations h).2,
    fun v k l hk => hwithin.get_eq (Or.inl hk), ?_⟩
  · intro i hi
    obtain ⟨v, l, hv, hq, hl, hcell⟩ := hwithin.cells i hi
    exact ⟨v, l, hq, hl, hcell, hv⟩
  · rintro t ht rfl v hv k l
    obtain ⟨items, tail, h⟩ := ht.spells
    refine hwithin.get_eq (Or.inr fun hwritten => ?_)
    obtain ⟨j, s, ins, hmem, hins, howns⟩ := hwritten.exists_owner
    have hlt := h.lt_of_owns hins (le_of_mem_stations hmem).1 howns
    omega

/-- A program that comes to a fault after its only sum. -/
def brokenProgram : Program ℚ :=
  .ofInstrs #[⟨.start, [0], 0⟩, ⟨.independent, [], 1⟩, ⟨.arithmetic .addVV, [1, 1], 2⟩,
    ⟨.start, [0], 2⟩] 3 1 0 #[] #[]

/-- The sweep of the broken program has written the sum at order 1 when it stops. A sweep of the
sample tape leaves the independents alone. -/
theorem brokenProgram_sweep_writes :
    let a : Arena ℚ := ⟨⟨3, 1⟩, #[0, 0, 0, 5, 1, 7, 10, 0, 9]⟩
    let run := (sweep brokenProgram 1 (Array.replicate 4 false) #[] {}).run a
    run.stop = some (.fault (.strayStart 3)) ∧ run.cells = #[0, 0, 0, 5, 1, 7, 10, 2, 9] ∧
      (∀ v l, Arena.get ⟨a.layout, run.cells⟩ v 2 l = a.get v 2 l) ∧
      ∀ l, Arena.get ⟨sampleBuffer.layout, ((sweep sampleTape.program 2 sampleMask #[3] {}).run
        sampleBuffer.arena).cells⟩ 1 2 l = sampleBuffer.arena.get 1 2 l := by
  intro a run
  have hbroken := sweep_writes brokenProgram 1 (Array.replicate 4 false) #[] {} a
  have hsample := sweep_writes sampleTape.program 2 sampleMask #[3] {} sampleBuffer.arena
  refine ⟨by decide +kernel, by decide +kernel, fun v l => hbroken.2.2.2.1 v 2 l (by decide), ?_⟩
  exact hsample.2.2.2.2 sampleTape sampleTape_recorded rfl 1 (by decide +kernel) 2

end Replay

end JetTape
