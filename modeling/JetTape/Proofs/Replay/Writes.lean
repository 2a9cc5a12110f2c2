import JetTape.Proofs.Recurrence.Writes
import JetTape.Proofs.Replay.Blocks
import JetTape.Proofs.Replay.Stations

/-!
What a replay may write. A step of the replay, whatever its instruction is and however it ends,
writes order `q` of the rows that the instruction owns. A call result writes nothing itself: its row
waits for the marker that closes the block, and the marker writes rows that wait for it and no
others. Nothing is asked of the program or of the arena.
-/
namespace JetTape.Replay

open Arena (SameShape Within Writes)
open Call (Frame)

variable {F : Type} {α β : Type}

/-- However the replay `m` ends from state `s`: well in `Q`, or early in `A`. -/
def Ends (m : Replay F α) (s : ReplayState F) (Q : α → ReplayState F → Prop)
    (A : ReplayState F → Prop) : Prop :=
  match m s with
  | .ok x s' => Q x s'
  | .error _ s' => A s'

namespace Ends

variable {s : ReplayState F} {Q Q' : α → ReplayState F → Prop} {R : β → ReplayState F → Prop}
  {A A' : ReplayState F → Prop}

theorem bind {m : Replay F α} {k : α → Replay F β} (hm : Ends m s Q A)
    (hk : ∀ x s', Q x s' → Ends (k x) s' R A) : Ends (m >>= k) s R A := by
  unfold Ends at hm ⊢
  cases h : m s with
  | ok x s' =>
    rw [h] at hm
    rw [bind_of_ok h]
    exact hk x s' hm
  | error stop s' =>
    rw [h] at hm
    rw [bind_of_error h]
    exact hm

theorem imp {m : Replay F α} (h : Ends m s Q A) (hQ : ∀ x s', Q x s' → Q' x s')
    (hA : ∀ s', A s' → A' s') : Ends m s Q' A' := by
  unfold Ends at h ⊢
  cases hm : m s with
  | ok x s' =>
    rw [hm] at h
    exact hQ x s' h
  | error stop s' =>
    rw [hm] at h
    exact hA s' h

theorem pure {x : α} (h : Q x s) : Ends (pure x : Replay F α) s Q A := h

theorem throw {stop : Stop} (h : A s) : Ends (throw stop : Replay F α) s Q A := h

theorem get {k : ReplayState F → Replay F β} (hk : Ends (k s) s R A) :
    Ends (MonadState.get >>= k) s R A := hk

theorem ok_bind {m : Except Fault α} {k : α → Replay F β} (hA : A s)
    (hk : ∀ x, m = .ok x → Ends (k x) s R A) : Ends (liftM m >>= k) s R A := by
  cases m with
  | ok x => exact hk x rfl
  | error f => exact hA

theorem ok {m : Except Fault α} (hQ : ∀ x, m = .ok x → Q x s) (hA : A s) :
    Ends (liftM m : Replay F α) s Q A := by
  cases m with
  | ok x => exact hQ x rfl
  | error f => exact hA

theorem read_bind {m : Arena.Read F α} {k : α → Replay F β} (hA : A s)
    (hk : ∀ x, m s.arena = .ok x → Ends (k x) s R A) : Ends (liftM m >>= k) s R A := by
  cases h : m s.arena with
  | ok x =>
    have hm : (liftM m : Replay F α) s = .ok x s := by
      show update (liftM m) s = _
      simp only [update, Arena.lift_of_eq h]
    unfold Ends
    rw [bind_of_ok hm]
    exact hk x h
  | error f =>
    have hm : (liftM m : Replay F α) s = .error (.fault f) s := by
      show update (liftM m) s = _
      simp only [update, liftM, monadLift, MonadLift.monadLift, h]
    unfold Ends
    rw [bind_of_error hm]
    exact hA

theorem update {m : Arena.Update F α} (hQ : ∀ x, Q x { s with arena := m.left s.arena })
    (hA : A { s with arena := m.left s.arena }) : Ends (liftM m : Replay F α) s Q A := by
  show match Replay.update m s with
    | .ok x s' => Q x s'
    | .error _ s' => A s'
  unfold Arena.Update.left at hQ hA
  unfold Replay.update
  cases h : m s.arena with
  | ok x b => simpa [h] using hQ x
  | error f b => simpa [h] using hA

theorem report {options : Options} {e : Event F} {k : Unit → Replay F β}
    (hk : ∀ events, Ends (k ()) { s with events } R A) : Ends (report options e >>= k) s R A := by
  obtain ⟨events, h⟩ := report_eq options e s
  unfold Ends
  rw [bind_of_ok h]
  exact hk events

end Ends

variable [Scalar F] {P : Program F} {q i : Nat} {mask : Array Bool} {resolved : Array Nat}
  {options : Options} {ins : Instr} {s : ReplayState F}

/-- The row is to be written by the marker that closes the open block. -/
def Awaits (s : ReplayState F) (v : Nat) : Prop :=
  ∃ f, s.frame = some f ∧ v ∈ f.targets.toList ∧ 0 < v

/-- The rows that the step of an instruction may write. -/
def StepRow (s : ReplayState F) (ins : Instr) (v : Nat) : Prop :=
  if ins.op = .callMarker then Call.phase s.frame = .finished ∧ Awaits s v
  else ins.op ≠ .callResult .var ∧ ins.Owns v

/-- The rows that may wait for a marker after the step of an instruction. -/
def StepAwaits (s : ReplayState F) (ins : Instr) (v : Nat) : Prop :=
  if ins.op = .callMarker then False
  else Awaits s v ∨ (ins.op = .callResult .var ∧ v = ins.row)

omit [Scalar F] in
/-- A report of an instruction leaves the arena and the open block as they are. -/
theorem ends_trace : Ends (trace options q i ins) s
    (fun _ s' => s'.arena = s.arena ∧ s'.frame = s.frame) fun s' => s'.arena = s.arena := by
  have hreport (e : Event F) : Ends (report options e) s
      (fun _ s' => s'.arena = s.arena ∧ s'.frame = s.frame) fun s' => s'.arena = s.arena := by
    obtain ⟨events, h⟩ := report_eq options e s
    unfold Ends
    rw [h]
    exact ⟨rfl, rfl⟩
  unfold trace
  split
  · split
    · exact hreport _
    · exact .read_bind rfl fun _ _ => .read_bind rfl fun _ _ => .read_bind rfl fun _ _ => hreport _
  · exact .pure ⟨rfl, rfl⟩

omit [Scalar F] in
/-- An argument joins the open block, and the same rows wait. -/
theorem ends_takeArg {value : Nat → Nat → Arena.Read F F} : Ends (takeArg value) s
    (fun _ s' => s'.arena = s.arena ∧ (∀ v, Awaits s' v → Awaits s v) ∧
      s'.frame.isSome = s.frame.isSome)
    fun s' => s'.arena = s.arena := by
  refine .get ?_
  cases hframe : s.frame with
  | none => exact .throw rfl
  | some f =>
    refine .ok_bind rfl fun _ _ => .read_bind rfl fun f' hput => ?_
    refine ⟨rfl, ?_, rfl⟩
    rintro v ⟨_, hf', hv⟩
    cases hf'
    obtain ⟨args, -, hput⟩ := bind_eq_ok_iff.mp hput
    cases hput
    exact ⟨f, hframe, hv⟩

omit [Scalar F] in
/-- A result joins the open block, and its row waits with the others. -/
theorem ends_takeResult {row : Nat} {value : Nat → Nat → Arena.Read F F} :
    Ends (takeResult row value) s
      (fun _ s' => s'.arena = s.arena ∧
        (∀ v, Awaits s' v → Awaits s v ∨ (0 < v ∧ v = row)) ∧ s'.frame.isSome = s.frame.isSome)
      fun s' => s'.arena = s.arena := by
  refine .get ?_
  cases hframe : s.frame with
  | none => exact .throw rfl
  | some f =>
    refine .ok_bind rfl fun _ _ => .read_bind rfl fun f' hput => ?_
    refine ⟨rfl, ?_, rfl⟩
    rintro v ⟨_, hf', hv, hpos⟩
    cases hf'
    obtain ⟨results, -, hput⟩ := bind_eq_ok_iff.mp hput
    cases hput
    rw [Array.mem_toList_iff] at hv
    rcases Array.mem_or_eq_of_mem_setIfInBounds hv with hv | rfl
    · exact Or.inl ⟨f, hframe, Array.mem_toList_iff.mpr hv, hpos⟩
    · exact Or.inr ⟨hpos, rfl⟩

/-- Asking along one direction changes neither the arena nor the rows that wait. -/
theorem ends_ask {operator : Operator F} {f : Frame F} {l : Nat} :
    Ends (ask options operator q f l) s
      (fun f' s' => f'.targets = f.targets ∧ s'.arena = s.arena ∧ s'.frame = s.frame)
      fun s' => s'.arena = s.arena := by
  unfold ask
  refine Ends.bind (Q := fun _ s' => s'.arena = s.arena ∧ s'.frame = s.frame) ⟨rfl, rfl⟩ ?_
  rintro _ s' ⟨harena, hframe⟩
  split
  · exact .pure ⟨rfl, harena, hframe⟩
  · exact .report fun _ => .throw harena
  · exact .throw harena

theorem ends_asks {operator : Operator F} {f : Frame F} {c l : Nat} :
    Ends (Loop.fold c l (ask options operator q) f) s
      (fun f' s' => f'.targets = f.targets ∧ s'.arena = s.arena ∧ s'.frame = s.frame)
      fun s' => s'.arena = s.arena := by
  induction c generalizing f l s with
  | zero => exact .pure ⟨rfl, rfl, rfl⟩
  | succ c ih =>
    refine ends_ask.bind ?_
    rintro f' s' ⟨htargets, harena, hframe⟩
    rw [← htargets, ← harena, ← hframe]
    exact ih

/-- Scattered results go to their targets. -/
theorem writes_scatter (results : Arena F) (targets : List Nat) :
    Writes q (fun v => v ∈ targets ∧ 0 < v) (scatter q results targets) := by
  have h : ∀ (rest : List (Nat × Nat)), (∀ w ∈ rest, w.1 ∈ targets) →
      Writes q (fun v => v ∈ targets ∧ 0 < v) (rest.forM fun w =>
        if 0 < w.1 then Arena.assign w.1 q fun l => return results.peek w.2 q l else pure ()) := by
    intro rest hrest
    induction rest with
    | nil => exact Arena.writes_pure ()
    | cons w rest ih =>
      obtain ⟨row, i⟩ := w
      have hrow : row ∈ targets := hrest (row, i) List.mem_cons_self
      refine Writes.bind ?_ fun _ => ih fun w hw => hrest w (List.mem_cons_of_mem _ hw)
      dsimp only
      split
      · exact Arena.writes_assign ⟨hrow, ‹_›⟩
      · exact Arena.writes_pure ()
  apply h
  rintro ⟨row, i⟩ hw
  exact (List.mem_zipIdx' hw).2 ▸ List.getElem_mem _

/-- A closed block writes its targets. -/
theorem ends_closeCall {f : Frame F} {site : CallSite F} : Ends (closeCall options q f site) s
    (fun _ s' => Within q (fun v => v ∈ f.targets.toList ∧ 0 < v) s.arena s'.arena ∧
      s'.frame = none)
    fun s' => Within q (fun v => v ∈ f.targets.toList ∧ 0 < v) s.arena s'.arena := by
  refine .ok_bind (Within.refl _) fun _ _ => ?_
  refine Ends.bind (Q := fun _ s' => s'.arena = s.arena ∧ s'.frame = none) ⟨rfl, rfl⟩ ?_
  rintro _ s₁ ⟨harena₁, hframe₁⟩
  refine .read_bind (harena₁ ▸ Within.refl _) fun r _ => ?_
  refine (ends_asks.imp (fun _ _ h => h) fun s' h => ?_).bind ?_
  · rw [h, harena₁]
    exact Within.refl _
  · rintro f' s₂ ⟨htargets, harena₂, hframe₂⟩
    have hwrites := writes_scatter (q := q) f'.results.all f'.targets.toList s₂.arena
    rw [htargets, harena₂, harena₁] at hwrites
    rw [← harena₁, ← harena₂, ← htargets] at hwrites ⊢
    exact .update (fun _ => ⟨hwrites, hframe₂.trans hframe₁⟩) hwrites

/-- A marker writes the rows that wait for it, and no row waits after it. It closes the block that
is open, or opens one. -/
theorem ends_marker {site : CallSite F} : Ends (marker options q site) s
    (fun _ s' => Within q (fun v => Call.phase s.frame = .finished ∧ Awaits s v) s.arena s'.arena ∧
      (∀ v, ¬ Awaits s' v) ∧ s'.frame.isSome = !s.frame.isSome)
    fun s' => Within q (fun v => Call.phase s.frame = .finished ∧ Awaits s v) s.arena s'.arena := by
  refine .get ?_
  cases hframe : s.frame with
  | none =>
    refine .read_bind (Within.refl _) fun r _ => .ok_bind (Within.refl _) fun f hnew => ?_
    obtain rfl := Frame.eq_of_new hnew
    refine ⟨Within.refl _, ?_, rfl⟩
    rintro v ⟨_, hf, hv, hpos⟩
    cases hf
    simp only [Frame.opened, Array.toList_replicate, List.mem_replicate] at hv
    omega
  | some f =>
    cases hphase : f.phase with
    | start | args | results =>
      simp only [hphase]
      exact .throw (Within.refl _)
    | finished =>
      simp only [hphase]
      have hrow (v : Nat) (hv : v ∈ f.targets.toList ∧ 0 < v) :
          Call.phase (some f) = .finished ∧ Awaits s v :=
        ⟨hphase, f, hframe, hv⟩
      refine ends_closeCall.imp ?_ fun s' h => h.mono hrow
      rintro _ s' ⟨hwithin, hclosed⟩
      refine ⟨hwithin.mono hrow, ?_, by simp [hclosed]⟩
      rintro v ⟨_, hf', -⟩
      rw [hclosed] at hf'
      cases hf'

/-- What the step of an instruction may do to a state if it comes out well. -/
structure Stepped (q : Nat) (s : ReplayState F) (ins : Instr) (s' : ReplayState F) : Prop where
  within : Within q (StepRow s ins) s.arena s'.arena
  awaits : ∀ v, Awaits s' v → StepAwaits s ins v
  /-- Markers open and close blocks, and nothing else does. -/
  opens : s'.frame.isSome = (s.frame.isSome ^^ decide (ins.op = .callMarker))

omit [Scalar F] in
/-- Outside markers nothing but a call result begins to wait. -/
theorem Stepped.of_not_marker {s' : ReplayState F} (hop : ins.op ≠ .callMarker)
    (hwithin : Within q (StepRow s ins) s.arena s'.arena)
    (hawaits : ∀ v, Awaits s' v → Awaits s v ∨ (ins.op = .callResult .var ∧ v = ins.row))
    (hframe : s'.frame.isSome = s.frame.isSome) : Stepped q s ins s' where
  within := hwithin
  awaits := by
    intro v hv
    unfold StepAwaits
    rw [if_neg hop]
    exact hawaits v hv
  opens := by simp [hframe, hop]

/-- A step writes rows of its instruction, or as a marker the rows that wait for it. -/
theorem ends_step : Ends (step P q resolved options i ins) s (fun _ s' => Stepped q s ins s')
    fun s' => Within q (StepRow s ins) s.arena s'.arena := by
  have hplain (h : ins.op ≠ .callMarker) (hvar : ins.op ≠ .callResult .var) :
      Ends (liftM (Recurrence.update q P.params resolved ins) : Replay F Unit) s
        (fun _ s' => Stepped q s ins s')
        fun s' => Within q (StepRow s ins) s.arena s'.arena := by
    have hwrites : Within q (StepRow s ins) s.arena
        ((Recurrence.update q P.params resolved ins).left s.arena) := by
      refine (Recurrence.writes_update s.arena).mono ?_
      intro v hv
      unfold StepRow
      rw [if_neg h]
      exact ⟨hvar, hv⟩
    exact .update (fun _ => .of_not_marker h hwrites (fun _ hv => Or.inl hv) rfl) hwrites
  obtain ⟨op, args, row⟩ := ins
  have hstill {s' : ReplayState F} {D : Nat → Prop} (h : s'.arena = s.arena) :
      Within q D s.arena s'.arena := h ▸ Within.refl _
  cases op with
  | start | independent => exact .throw (Within.refl _)
  | callMarker =>
    refine .ok_bind (Within.refl _) fun site _ => ?_
    have hrow (v : Nat) (hv : Call.phase s.frame = .finished ∧ Awaits s v) :
        StepRow s ⟨.callMarker, args, row⟩ v := by
      unfold StepRow
      rwa [if_pos rfl]
    refine ends_marker.imp ?_ fun _ h => h.mono hrow
    rintro _ s' ⟨hwithin, hnone, hframe⟩
    exact ⟨hwithin.mono hrow, fun v hv => absurd hv (hnone v), by simp [hframe]⟩
  | callArg source =>
    have htake (value : Nat → Nat → Arena.Read F F) : Ends (takeArg value) s
        (fun _ s' => Stepped q s ⟨.callArg source, args, row⟩ s')
        fun s' => Within q (StepRow s ⟨.callArg source, args, row⟩) s.arena s'.arena := by
      refine ends_takeArg.imp ?_ fun _ => hstill
      rintro _ s' ⟨harena, hawaits, hframe⟩
      exact .of_not_marker nofun (hstill harena) (fun v hv => Or.inl (hawaits v hv)) hframe
    cases source with
    | par =>
      exact .ok_bind (Within.refl _) fun _ _ => .ok_bind (Within.refl _) fun _ _ => htake _
    | var => exact .ok_bind (Within.refl _) fun _ _ => htake _
  | callResult source =>
    cases source with
    | par =>
      refine .ok_bind (Within.refl _) fun _ _ => .ok_bind (Within.refl _) fun _ _ => ?_
      refine ends_takeResult.imp ?_ fun _ => hstill
      rintro _ s' ⟨harena, hawaits, hframe⟩
      refine .of_not_marker nofun (hstill harena) ?_ hframe
      exact fun v hv => Or.inl ((hawaits v hv).resolve_right (by omega))
    | var =>
      refine ends_takeResult.imp ?_ fun _ => hstill
      rintro _ s' ⟨harena, hawaits, hframe⟩
      refine .of_not_marker nofun (hstill harena) ?_ hframe
      exact fun v hv => (hawaits v hv).imp_right fun hrow => ⟨rfl, hrow.2⟩
  | _ => exact hplain nofun nofun

variable (P q resolved options i ins s) in
/-- The report of a step changes nothing of it. -/
theorem ends_stepAt : Ends (stepAt P q resolved options i ins) s (fun _ s' => Stepped q s ins s')
    fun s' => Within q (StepRow s ins) s.arena s'.arena := by
  refine ends_step.bind ?_
  rintro _ s₁ ⟨hwithin, hawaits, hopens⟩
  refine ends_trace.imp ?_ fun s' h => h ▸ hwithin
  rintro _ s' ⟨harena, hframe⟩
  refine ⟨harena ▸ hwithin, ?_, hframe ▸ hopens⟩
  rintro v ⟨f, hf, hv⟩
  exact hawaits v ⟨f, hframe ▸ hf, hv⟩

theorem stepped_of_stepAt {s' : ReplayState F}
    (h : stepAt P q resolved options i ins s = .ok () s') : Stepped q s ins s' := by
  have hend := ends_stepAt P q i resolved options ins s
  unfold Ends at hend
  rwa [h] at hend

/-- All stations have an arena of the same shape. -/
theorem sameShape_of_mem_stationsFrom {j : Nat} {s' : ReplayState F}
    (h : (j, s') ∈ stationsFrom P q mask resolved options i s) : SameShape s.arena s'.arena := by
  induction i, s using replay_induct mask with
  | h i s ih =>
    have hpassage := passage P q mask resolved options i s
    generalize replayFrom P q mask resolved options i s = out at hpassage
    generalize stationsFrom P q mask resolved options i s = list at hpassage h
    cases hpassage with
    | lost => cases h
    | unread | stops | halts =>
      cases List.mem_singleton.mp h
      exact .refl _
    | goesOn hstands hins hop hstep =>
      rcases List.mem_cons.mp h with h | h
      · cases h
        exact .refl _
      · have hlater := ih _ _ hstands.le (Cursor.lt_size_of_next hstands.next) h
        exact (stepped_of_stepAt hstep).within.toSameShape.trans hlater

/-- The next call marker among the stations closes a finished block. -/
inductive Closes (P : Program F) : List (Nat × ReplayState F) → Prop where
  | here {j : Nat} {s : ReplayState F} {ins : Instr} {rest : List (Nat × ReplayState F)}
      (hins : P.instr j = .ok ins) (hop : ins.op = .callMarker)
      (hphase : Call.phase s.frame = .finished) : Closes P ((j, s) :: rest)
  | later {j : Nat} {s : ReplayState F} {ins : Instr} {rest : List (Nat × ReplayState F)}
      (hins : P.instr j = .ok ins) (hop : ins.op ≠ .callMarker) (h : Closes P rest) :
      Closes P ((j, s) :: rest)

/-- The instruction at one of the stations owns the row. If it is a call result, the block is closed
at a later station. -/
inductive Written (P : Program F) (v : Nat) : List (Nat × ReplayState F) → Prop where
  | here {j : Nat} {s : ReplayState F} {ins : Instr} {rest : List (Nat × ReplayState F)}
      (hins : P.instr j = .ok ins) (howns : ins.Owns v)
      (hcloses : ins.op = .callResult .var → Closes P rest) : Written P v ((j, s) :: rest)
  | later {j : Nat} {s : ReplayState F} {rest : List (Nat × ReplayState F)}
      (h : Written P v rest) : Written P v ((j, s) :: rest)

/-- The row is written at one of the stations, or it waits in state `s` for the next marker among
them. -/
def Due (P : Program F) (s : ReplayState F) (list : List (Nat × ReplayState F)) (v : Nat) : Prop :=
  Written P v list ∨ (Awaits s v ∧ Closes P list)

omit [Scalar F] in
theorem due_of_stepRow {rest : List (Nat × ReplayState F)} {v : Nat} (hins : P.instr i = .ok ins)
    (hv : StepRow s ins v) : Due P s ((i, s) :: rest) v := by
  unfold StepRow at hv
  split at hv
  · exact Or.inr ⟨hv.2, .here hins ‹_› hv.1⟩
  · exact Or.inl (.here hins hv.2 fun hvar => absurd hvar hv.1)

omit [Scalar F] in
/-- What is due after the step at a station was due before it. -/
theorem due_of_due {s' : ReplayState F} {rest : List (Nat × ReplayState F)} {v : Nat}
    (hins : P.instr i = .ok ins) (hawaits : ∀ v, Awaits s' v → StepAwaits s ins v)
    (hv : Due P s' rest v) : Due P s ((i, s) :: rest) v := by
  rcases hv with hv | ⟨hv, hcloses⟩
  · exact Or.inl (.later hv)
  · have hstep := hawaits v hv
    unfold StepAwaits at hstep
    split at hstep
    · exact hstep.elim
    · rcases hstep with hv | ⟨hop, rfl⟩
      · exact Or.inr ⟨hv, .later hins ‹_› hcloses⟩
      · refine Or.inl (.here hins ⟨?_, Nat.le_refl _⟩ fun _ => hcloses)
        rw [hop]
        exact Nat.lt_succ_self _

/-- A replay writes order `q` of the rows that are due. -/
theorem ends_replayFrom (i : Nat) (s : ReplayState F) :
    Ends (replayFrom P q mask resolved options i) s
      (fun _ s' => Within q (Due P s (stationsFrom P q mask resolved options i s)) s.arena s'.arena)
      fun s' => Within q (Due P s (stationsFrom P q mask resolved options i s))
        s.arena s'.arena := by
  induction i, s using replay_induct mask with
  | h i s ih =>
    have hpassage := passage P q mask resolved options i s
    unfold Ends
    generalize replayFrom P q mask resolved options i s = out at hpassage ⊢
    generalize stationsFrom P q mask resolved options i s = list at hpassage ⊢
    cases hpassage with
    | lost | unread => exact Within.refl _
    | @stops j events =>
      have hclosed : Ends checkClosed { s with events } (fun _ s' => s'.arena = s.arena)
          fun s' => s'.arena = s.arena :=
        .get (.ok (fun _ _ => rfl) rfl)
      exact hclosed.imp (fun _ _ h => h ▸ Within.refl _) fun _ h => h ▸ Within.refl _
    | @halts j events ins stop s' hstands hins hop hstep =>
      have hend := ends_stepAt P q j resolved options ins { s with events }
      unfold Ends at hend
      rw [hstep] at hend
      exact hend.mono fun v hv => due_of_stepRow hins hv
    | @goesOn j events ins s' hstands hins hop hstep =>
      have hstepped := stepped_of_stepAt hstep
      have hrest := ih j s' hstands.le (Cursor.lt_size_of_next hstands.next)
      generalize stationsFrom P q mask resolved options (j + 1) s' = rest at hrest ⊢
      have hfirst : Within q (Due P s ((j, { s with events }) :: rest)) s.arena s'.arena :=
        hstepped.within.mono fun v hv => due_of_stepRow hins hv
      have hlater (b : Arena F) (h : Within q (Due P s' rest) s'.arena b) :
          Within q (Due P s ((j, { s with events }) :: rest)) s.arena b :=
        hfirst.trans (h.mono fun v hv => due_of_due hins hstepped.awaits hv)
      exact hrest.imp (fun _ s'' h => hlater s''.arena h) fun s'' h => hlater s''.arena h

omit [Scalar F] in
/-- A written row belongs to the instruction of a station. -/
theorem Written.exists_owner {v : Nat} {list : List (Nat × ReplayState F)} (h : Written P v list) :
    ∃ j s ins, (j, s) ∈ list ∧ P.instr j = .ok ins ∧ ins.Owns v := by
  induction h with
  | here hins howns _ => exact ⟨_, _, _, List.mem_cons_self, hins, howns⟩
  | later _ ih =>
    obtain ⟨j, s, ins, hmem, hins, howns⟩ := ih
    exact ⟨j, s, ins, List.mem_cons_of_mem _ hmem, hins, howns⟩

section Sweep

variable {a : Arena F}

variable (P q mask resolved options a) in
omit [Scalar F] in
/-- The checks of a sweep leave the arena as it is. After them no block is open and nothing has been
requested, and the replay begins after the independents. -/
theorem ends_sweepHead : Ends (sweepHead P q mask resolved options) { arena := a }
    (fun i s => checkShapes P q mask resolved a = .ok () ∧ i = P.independentCount + 1 ∧
      ∃ events, s = { arena := a, events })
    fun s => s.arena = a := by
  refine .get (.ok_bind rfl fun _ hshapes => .ok_bind rfl fun _ _ => .report fun events => ?_)
  refine .ok_bind rfl fun _ _ => ?_
  refine Ends.bind (Q := fun _ s => s = { arena := a, events }) rfl ?_
  rintro _ s rfl
  exact .ok (fun i hi => ⟨hshapes, (Index.add_eq_ok_iff.mp hi).2, events, rfl⟩) rfl

/-- The stations of a sweep are those of the replay that begins after the independents. -/
theorem mem_stationsFrom_of_mem_stations {j : Nat} {s : ReplayState F}
    (h : (j, s) ∈ stations P q mask resolved options a) :
    checkShapes P q mask resolved a = .ok () ∧ ∃ events,
      (j, s) ∈ stationsFrom P q mask resolved options (P.independentCount + 1)
        { arena := a, events } := by
  have hhead := ends_sweepHead P q mask resolved options a
  unfold Ends at hhead
  unfold stations at h
  split at h
  · cases h
  · rename_i i s' hi
    rw [hi] at hhead
    obtain ⟨hshapes, rfl, events, rfl⟩ := hhead
    exact ⟨hshapes, events, h⟩

theorem le_of_mem_stations {j : Nat} {s : ReplayState F}
    (h : (j, s) ∈ stations P q mask resolved options a) :
    P.independentCount + 1 ≤ j ∧ mask[j]? = some false := by
  obtain ⟨-, events, h⟩ := mem_stationsFrom_of_mem_stations h
  exact of_mem_stationsFrom h

theorem sameShape_of_mem_stations {j : Nat} {s : ReplayState F}
    (h : (j, s) ∈ stations P q mask resolved options a) : SameShape a s.arena := by
  obtain ⟨-, events, h⟩ := mem_stationsFrom_of_mem_stations h
  exact sameShape_of_mem_stationsFrom h

/-- A sweep writes order `q` of the rows that are written at its stations. -/
theorem within_sweep : Within q (fun v => Written P v (stations P q mask resolved options a)) a
    ⟨a.layout, ((sweep P q mask resolved options).run a).cells⟩ := by
  have hsweep : Ends (sweep P q mask resolved options) { arena := a }
      (fun _ s => Within q (fun v => Written P v (stations P q mask resolved options a)) a s.arena)
      fun s => Within q (fun v => Written P v (stations P q mask resolved options a)) a
        s.arena := by
    have hhead := ends_sweepHead P q mask resolved options a
    rw [sweep_eq]
    unfold Ends at hhead ⊢
    unfold stations
    cases h : sweepHead P q mask resolved options { arena := a } with
    | error stop s =>
      rw [h] at hhead
      rw [bind_of_error h]
      exact hhead ▸ Within.refl _
    | ok i s =>
      rw [h] at hhead
      obtain ⟨-, -, events, rfl⟩ := hhead
      rw [bind_of_ok h]
      have hdue (v : Nat) (hv : Due P { arena := a, events }
          (stationsFrom P q mask resolved options i { arena := a, events }) v) :
          Written P v (stationsFrom P q mask resolved options i { arena := a, events }) := by
        refine hv.resolve_right ?_
        rintro ⟨⟨f, hf, -⟩, -⟩
        cases hf
      exact (ends_replayFrom i _).imp (fun _ _ h => h.mono hdue) fun _ h => h.mono hdue
  have hcells {s : ReplayState F} (h : Within q
      (fun v => Written P v (stations P q mask resolved options a)) a s.arena) :
      Within q (fun v => Written P v (stations P q mask resolved options a)) a
        ⟨a.layout, s.arena.cells⟩ := by
    rw [← h.layout]
    exact h
  unfold Ends at hsweep
  unfold Replay.run
  cases h : sweep P q mask resolved options { arena := a } with
  | ok _ s | error _ s =>
    rw [h] at hsweep
    exact hcells hsweep

end Sweep

end JetTape.Replay
