import JetTape.Proofs.Sweep.Run
import JetTape.Proofs.Tape.Overflow

/-!
Recorded tapes are safe to sweep. Everything that a sweep checks holds of a recorded tape with a
buffer, a mask and a load table that fit, whatever the coefficients are and whatever is reported, so
a sweep comes to its end unless an operator refuses.
-/
namespace JetTape

variable {F : Type}

/-- The operator never ends in a fault of its own. -/
def Operator.Returns (operator : Operator F) : Prop :=
  ∀ request report, operator.forward request ≠ .fault report

theorem Operator.Returns.eq_refused {operator : Operator F} (h : operator.Returns)
    {r : Request F} {halt : Halt} (hanswer : operator.answer r = .error halt) :
    halt = .refused operator.name := by
  unfold Operator.answer at hanswer
  split at hanswer
  · cases hanswer
  · cases hanswer
    rfl
  · rename_i report hfault
    exact absurd hfault (h r report)

theorem Operator.echo_returns : (Operator.echo : Operator F).Returns := fun _ _ h => nomatch h

variable [Scalar F]

namespace Plan

variable {p : Plan F}

/-- A sweep halts by the answer of an operator. -/
theorem exists_answer_of_haltItems? {i : Nat} {items : List Item} {j : Jet F} {halt : Halt}
    (h : p.haltItems? i items j = some halt) :
    ∃ operator ∈ p.registry, ∃ r, operator.answer r = .error halt := by
  induction items generalizing i j with
  | nil => cases h
  | cons item rest ih =>
    unfold haltItems? at h
    by_cases hmark : p.marks i = true
    · rw [if_pos hmark] at h
      exact ih h
    · rw [if_neg hmark] at h
      cases hfirst : p.halt? item j with
      | none =>
        rw [hfirst] at h
        exact ih h
      | some halt' =>
        rw [hfirst] at h
        cases h
        cases item with
        | plain ins => cases hfirst
        | call b =>
          simp only [halt?, answer] at hfirst
          cases hop : p.operator? b with
          | none => simp [hop] at hfirst
          | some operator =>
            refine ⟨operator, Array.mem_of_getElem? hop, p.request b j, ?_⟩
            cases hanswer : operator.answer (p.request b j) with
            | ok results => simp [hop, hanswer] at hfirst
            | error halt' =>
              simp only [hop, hanswer] at hfirst
              cases hfirst
              rfl

end Plan

namespace Tape

variable {t : Tape F} {b : Buffer F} {q : Nat} {mask : Array Bool} {resolved : Array Nat}

/-- The sweep of a recorded tape reaches no fault. It comes to its end, or one of the operators of
the tape refuses a request of its order along one of the directions. -/
theorem sweep_no_fault (ht : t.Recorded) (hstop : t.isStopped = true) (hc : t.Countable)
    (hb : b.Fits t) (hpos : 1 ≤ q) (hq : q < b.layout.capOrder)
    (hresolved : resolved.size = t.loads) (hloads : t.LoadsOk resolved)
    (hsize : mask.size = t.ops.size) (hmask : t.MaskOk mask)
    (hroom : t.RoomOk q b.layout.directions)
    (hoperators : ∀ operator ∈ t.registry, operator.Returns) (options : Options) :
    let run := t.sweep q b mask resolved options
    run.stop = none ∨ ∃ operator ∈ t.registry, ∃ l < b.layout.directions,
      run.stop = some (.refused operator.name q l) := by
  intro run
  obtain ⟨items, tail, h⟩ := ht.spells
  have hshapes : Replay.checkShapes t.program q mask resolved b.arena = .ok () :=
    (Arena.Shaped.checkShapes_eq_ok_iff (P := t.program) hb.shaped).mpr
      ⟨⟨hb.shaped, hpos, hq⟩, hsize, hresolved⟩
  have hrun := (h.sweep hc hstop hb hshapes hmask hloads options).1
  cases hout : ((t.plan q mask resolved).replayItems b.layout.directions (t.independents + 1)
      items b.arena.jet).stop with
  | none => exact Or.inl (hrun.trans hout)
  | some stop =>
    right
    rcases Plan.replayItems_eq_some hout with ⟨item, hitem, f, hf, -⟩ | ⟨l, halt, hl, hhalt, rfl⟩
    · rw [h.openFault?_eq_none hc hroom hb.shaped.directed item hitem] at hf
      cases hf
    · obtain ⟨operator, hop, r, hanswer⟩ := Plan.exists_answer_of_haltItems? hhalt
      obtain rfl := (hoperators operator hop).eq_refused hanswer
      exact ⟨operator, hop, l, hl, hrun.trans hout⟩

theorem sampleTape_sweep_no_fault :
    let run := sampleTape.sweep 2 sampleBuffer sampleMask #[3]
      { trace := true, verbosity := .trace }
    run.stop = none ∨ ∃ operator ∈ sampleTape.registry, ∃ l < sampleBuffer.layout.directions,
      run.stop = some (.refused operator.name 2 l) := by
  refine sweep_no_fault sampleTape_recorded (by decide +kernel) sampleTape_countable
    sampleBuffer_fits (by decide) (by decide) (by decide +kernel) (by decide +kernel)
    (by decide +kernel) (by decide +kernel) (by decide +kernel) ?_ _
  intro operator hmem
  have hregistry : sampleTape.registry = #[.echo] := rfl
  rw [hregistry, Array.mem_singleton] at hmem
  rw [hmem]
  exact Operator.echo_returns

/-- Behind `2 ^ 32` words a function may be read back as that of a row that the tape does not
have, and the sweep faults. -/
theorem stray_faults :
    let t := stray .exp 9
    t.Recorded ∧ t.isStopped = true ∧ (strayBuffer 1 5).Fits t ∧ t.MaskOk t.noSkip ∧
      t.LoadsOk #[] ∧ t.registry = #[] ∧
      (t.sweep 1 (strayBuffer 1 5) t.noSkip #[] {}).stop = some (.fault (.rowPastEnd 9)) := by
  intro t
  have hlike : t.Alike (strayRead .exp 9) := stray_alike .exp 9
  refine ⟨stray_recorded .exp 9, hlike.isStopped.trans (by decide),
    hlike.fits (by decide), ?_, hlike.loadsOk (by decide),
    hlike.registry.trans rfl, ?_⟩
  · rw [hlike.noSkip]
    exact hlike.maskOk (by decide)
  · rw [hlike.sweep_noSkip]
    with_unfolding_all decide

end Tape

end JetTape
