import JetTape.Program

/-!
The cursor of a replay. It steps over the instructions that a mask marks; a marked call marker
takes its whole block along, so a replay never enters a block half-way. The cursor only moves
forward and stays inside the mask.
-/
namespace JetTape.Cursor

variable {F : Type}

/-- The index after the marked instruction, or after the marked block, at `i`. -/
def pass (p : Program F) (mask : Array Bool) (i : Nat) : Except Fault Nat := do
  let ins ← p.instr i
  if ins.op = .callMarker then
    let site ← p.callSite ins.args
    let span ← Index.add (← Index.add site.argCount site.resultCount) 1
    let closing ← Index.add i span
    require (closing < mask.size) (.skippedCallNotClosed site.operator.name closing)
    require ((← p.instr closing).op = .callMarker)
      (.skippedCallNotClosed site.operator.name closing)
    return closing + 1
  else
    return i + 1

theorem lt_of_pass {p : Program F} {mask : Array Bool} {i j : Nat} (h : pass p mask i = .ok j) :
    i < j := by
  obtain ⟨ins, -, h⟩ := bind_eq_ok_iff.mp h
  split at h
  · obtain ⟨site, -, h⟩ := bind_eq_ok_iff.mp h
    obtain ⟨counts, -, h⟩ := bind_eq_ok_iff.mp h
    obtain ⟨span, -, h⟩ := bind_eq_ok_iff.mp h
    obtain ⟨closing, hclosing, h⟩ := bind_eq_ok_iff.mp h
    obtain ⟨-, -, h⟩ := bind_eq_ok_iff.mp h
    obtain ⟨last, -, h⟩ := bind_eq_ok_iff.mp h
    obtain ⟨-, -, h⟩ := bind_eq_ok_iff.mp h
    have hle := (Index.add_eq_ok_iff.mp hclosing).2
    cases h
    omega
  · cases h
    omega

/-- The first unmarked index from `i` on. -/
def next (p : Program F) (mask : Array Bool) (i : Nat) : Except Fault Nat :=
  if h : i < mask.size then
    if mask[i] then
      match hp : pass p mask i with
      | .ok j => next p mask j
      | .error f => .error f
    else .ok i
  else .error (.skippedPastEnd i)
termination_by mask.size - i
decreasing_by
  have hlt := lt_of_pass hp
  omega

theorem next_of_unmarked {p : Program F} {mask : Array Bool} {i : Nat}
    (h : mask[i]? = some false) : next p mask i = .ok i := by
  obtain ⟨hi, hm⟩ := Array.getElem?_eq_some_iff.mp h
  rw [next, dif_pos hi, if_neg (by simp [hm])]

theorem next_of_marked {p : Program F} {mask : Array Bool} {i j : Nat}
    (h : mask[i]? = some true) (hpass : pass p mask i = .ok j) :
    next p mask i = next p mask j := by
  obtain ⟨hi, hm⟩ := Array.getElem?_eq_some_iff.mp h
  rw [next, dif_pos hi, if_pos hm]
  split
  · rename_i j' hj
    rw [hj] at hpass
    cases hpass
    rfl
  · rename_i f hf
    rw [hf] at hpass
    cases hpass

theorem le_of_next {p : Program F} {mask : Array Bool} {i j : Nat} (h : next p mask i = .ok j) :
    i ≤ j := by
  induction i using next.induct p mask with
  | case1 i hi hm k hp ih =>
    rw [next, dif_pos hi, if_pos hm, hp] at h
    have := lt_of_pass hp
    have := ih h
    omega
  | case2 i hi hm f hp =>
    rw [next, dif_pos hi, if_pos hm, hp] at h
    cases h
  | case3 i hi hm =>
    rw [next, dif_pos hi, if_neg hm] at h
    cases h
    exact Nat.le_refl _
  | case4 i hi =>
    rw [next, dif_neg hi] at h
    cases h

theorem lt_size_of_next {p : Program F} {mask : Array Bool} {i j : Nat}
    (h : next p mask i = .ok j) : j < mask.size := by
  induction i using next.induct p mask with
  | case1 i hi hm k hp ih =>
    rw [next, dif_pos hi, if_pos hm, hp] at h
    exact ih h
  | case2 i hi hm f hp =>
    rw [next, dif_pos hi, if_pos hm, hp] at h
    cases h
  | case3 i hi hm =>
    rw [next, dif_pos hi, if_neg hm] at h
    cases h
    exact hi
  | case4 i hi =>
    rw [next, dif_neg hi] at h
    cases h

theorem unmarked_of_next {p : Program F} {mask : Array Bool} {i j : Nat}
    (h : next p mask i = .ok j) : mask[j]? = some false := by
  induction i using next.induct p mask with
  | case1 i hi hm k hp ih =>
    rw [next, dif_pos hi, if_pos hm, hp] at h
    exact ih h
  | case2 i hi hm f hp =>
    rw [next, dif_pos hi, if_pos hm, hp] at h
    cases h
  | case3 i hi hm =>
    rw [next, dif_pos hi, if_neg hm] at h
    cases h
    simpa [hi] using hm
  | case4 i hi =>
    rw [next, dif_neg hi] at h
    cases h

end JetTape.Cursor
