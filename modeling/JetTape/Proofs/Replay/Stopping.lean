import JetTape.Proofs.Replay.Passing

/-!
Sweeps that stop early. A sweep stops at the first item that it cannot get past. Up to there it has
done what the sweep of the items before does, and the item itself leaves all jets as they were, also
where an operator has accepted along some directions before it refuses along another.
-/
namespace JetTape

variable {F : Type}

/-- An operator that answers accepts. -/
theorem Operator.accept_of_answer {operator : Operator F} {r : Request F} {results : Array F}
    (h : operator.answer r = .ok results) : ∃ answer, operator.forward r = .accept answer := by
  unfold Operator.answer at h
  split at h
  · rename_i answer haccept
    exact ⟨answer, haccept⟩
  · cases h
  · cases h

theorem Operator.refuse_of_answer {operator : Operator F} {r : Request F} {name : String}
    (h : operator.answer r = .error (.refused name)) :
    operator.forward r = .refuse ∧ name = operator.name := by
  unfold Operator.answer at h
  split at h
  · cases h
  · rename_i hrefuse
    cases h
    exact ⟨hrefuse, rfl⟩
  · cases h

namespace Plan

variable [Scalar F] {p : Plan F} {r i : Nat} {js : Nat → Jet F}

/-- An item that stops a sweep advances no jet. -/
theorem replayItem_jets_of_some {item : Item} {stop : Stop}
    (h : (p.replayItem r item js).stop = some stop) : (p.replayItem r item js).jets = js := by
  cases hopen : p.openFault? r item with
  | some f => rw [replayItem_of_openFault hopen]
  | none =>
    cases item with
    | plain ins => cases h
    | call b =>
      cases hask : (p.ask b js r 0).1 with
      | none =>
        rw [replayItem_call_none hopen hask] at h
        cases h
      | some stop' => rw [replayItem_call_some hopen hask]

/-- A sweep that stops early has come to its end over the items before the one that stops it, and
has made the requests of that item last. -/
theorem exists_stopped {items : List Item} {stop : Stop}
    (h : (p.replayItems r i items js).stop = some stop) :
    ∃ before item after, items = before ++ item :: after ∧
      p.marks (i + (instrsOf before).length) = false ∧
      let first := p.replayItems r i before js
      first.stop = none ∧ (p.replayItem r item first.jets).stop = some stop ∧
        (p.replayItems r i items js).jets = first.jets ∧
        (p.replayItems r i items js).requests =
          first.requests ++ (p.replayItem r item first.jets).requests := by
  induction items generalizing i js with
  | nil => cases h
  | cons item rest ih =>
    cases hmark : p.marks i with
    | true =>
      rw [replayItems_marked hmark] at h ⊢
      obtain ⟨before, item', after, rfl, hunmarked, hfirst⟩ := ih h
      refine ⟨item :: before, item', after, rfl, ?_, ?_⟩
      · rwa [instrsOf_cons, List.length_append, ← Nat.add_assoc]
      · rw [replayItems_marked hmark]
        exact hfirst
    | false =>
      cases hhere : (p.replayItem r item js).stop with
      | some stop' =>
        rw [replayItems_stopped hmark hhere] at h ⊢
        rw [hhere] at h
        refine ⟨[], item, rest, rfl, hmark, rfl, hhere.trans h, replayItem_jets_of_some hhere, ?_⟩
        rfl
      | none =>
        rw [replayItems_went_on hmark hhere] at h ⊢
        obtain ⟨before, item', after, rfl, hunmarked, hnone, hstop, hjets, hrequests⟩ := ih h
        refine ⟨item :: before, item', after, rfl, ?_, ?_⟩
        · rwa [instrsOf_cons, List.length_append, ← Nat.add_assoc]
        · rw [replayItems_went_on hmark hhere]
          exact ⟨hnone, hstop, hjets,
            (congrArg _ hrequests).trans (List.append_assoc _ _ _).symm⟩

/-- An item at which a sweep is refused is a call. Its operator accepts along the directions before
the one along which it refuses, and nothing is asked of it along those after. -/
theorem exists_refused {item : Item} {name : String} {q d : Nat}
    (h : (p.replayItem r item js).stop = some (.refused name q d)) :
    ∃ b operator, item = .call b ∧ p.operator? b = some operator ∧ name = operator.name ∧
      q = p.order ∧ d < r ∧
      (∀ l < d, ∃ answer, operator.forward (p.request b (js l)) = .accept answer) ∧
      operator.forward (p.request b (js d)) = .refuse ∧
      (p.replayItem r item js).requests = (List.range (d + 1)).map fun l => p.request b (js l) := by
  cases hopen : p.openFault? r item with
  | some f =>
    rw [replayItem_of_openFault hopen] at h
    cases h
  | none =>
    cases item with
    | plain ins => cases h
    | call b =>
      cases hask : (p.ask b js r 0).1 with
      | none =>
        rw [replayItem_call_none hopen hask] at h
        cases h
      | some stop =>
        rw [replayItem_call_some hopen hask] at h ⊢
        obtain ⟨l, halt, hl, hbefore, hhalt, rfl, hrequests⟩ := ask_eq_some hask
        rw [Nat.zero_add] at hhalt h
        cases halt with
        | fault report => cases h
        | refused name' =>
          cases h
          -- A block without an operator does not halt.
          have hoperator : ∃ operator, p.operator? b = some operator := by
            cases hop : p.operator? b with
            | some operator => exact ⟨operator, rfl⟩
            | none =>
              rw [halt?, answer, hop] at hhalt
              cases hhalt
          obtain ⟨operator, hop⟩ := hoperator
          obtain ⟨hrefuse, hname⟩ := Operator.refuse_of_answer (answer_eq_of_halt? hop hhalt)
          refine ⟨b, operator, rfl, hop, hname, rfl, hl, ?_, hrefuse, ?_⟩
          · intro l' hl'
            exact Operator.accept_of_answer
              (answer_eq_results hop (hbefore l' (Nat.zero_le l') (by omega)))
          · rw [hrequests, List.range_eq_range']

theorem ask_withMask (mask : Array Bool) (b : Block) (js : Nat → Jet F) (n l : Nat) :
    (p.withMask mask).ask b js n l = p.ask b js n l := by
  induction n generalizing l with
  | zero => rfl
  | succ n ih =>
    unfold ask
    rw [ih]
    rfl

/-- A mask matters where the items are only. -/
theorem replayItems_withMask {mask : Array Bool} {items : List Item}
    (h : ∀ k < (instrsOf items).length, mask.getD (i + k) false = p.marks (i + k)) :
    (p.withMask mask).replayItems r i items js = p.replayItems r i items js := by
  induction items generalizing i js with
  | nil => rfl
  | cons item rest ih =>
    rw [instrsOf_cons, List.length_append] at h
    have hpos : 0 < item.instrs.length := List.length_pos_iff.mpr item.instrs_ne_nil
    have hmarks : (p.withMask mask).marks i = p.marks i := h 0 (by omega)
    have hitem : (p.withMask mask).replayItem r item js = p.replayItem r item js := by
      cases item with
      | plain ins => rfl
      | call b =>
        simp only [replayItem, ask_withMask]
        rfl
    have hrest (js : Nat → Jet F) : (p.withMask mask).replayItems r (i + item.size) rest js =
        p.replayItems r (i + item.size) rest js :=
      ih fun k hk => by
        rw [Nat.add_assoc]
        exact h (item.size + k) (Nat.add_lt_add_left hk _)
    unfold replayItems
    rw [hmarks, hitem]
    simp only [hrest]

end Plan

end JetTape
