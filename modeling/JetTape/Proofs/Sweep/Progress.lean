import JetTape.Proofs.Replay.Cursor
import JetTape.Proofs.Replay.Writes
import JetTape.Proofs.Sweep.Inputs

/-!
Progress of sweeps. The replay loop goes from one unmarked instruction to a later one, so it comes
to every instruction at most once and ends, whatever the program, the mask and the arena are. A
sweep that comes to no instruction has faulted before it has changed the arena; any other one ends
at the last instruction that it comes to, and there are five ways in which it may do so.
-/
namespace JetTape.Replay

variable {F : Type} [Scalar F] {P : Program F} {q i n : Nat} {mask : Array Bool}
  {resolved : Array Nat} {options : Options} {a : Arena F}

/-- The replay loop, given up after `n` turns. It gives back whether it has come to its end. -/
def replayWithin (P : Program F) (q : Nat) (mask : Array Bool) (resolved : Array Nat)
    (options : Options) : Nat → Nat → Replay F Bool
  | 0, _ => pure false
  | n + 1, i =>
    match Cursor.next P mask i with
    | .error f => throw (.fault f)
    | .ok j => do
      reportSkipped options i j
      let ins ← P.instr j
      if ins.op = .stop then
        checkClosed
        pure true
      else
        step P q resolved options j ins
        trace options q j ins
        replayWithin P q mask resolved options n (j + 1)

/-- The sweep with its replay loop given up after `n` turns. -/
def sweepWithin (P : Program F) (q : Nat) (mask : Array Bool) (resolved : Array Nat)
    (options : Options) (n : Nat) : Replay F Bool := do
  replayWithin P q mask resolved options n (← sweepHead P q mask resolved options)

/-- The replay loop comes to its end within one turn for each instruction that the mask has left,
and one more. -/
theorem replayWithin_eq (h : mask.size - i < n) : replayWithin P q mask resolved options n i =
    replayFrom P q mask resolved options i >>= fun _ => pure true := by
  induction n generalizing i with
  | zero => omega
  | succ n ih =>
    cases hnext : Cursor.next P mask i with
    | error f =>
      rw [replayWithin, replayFrom_of_error hnext, hnext]
      rfl
    | ok j =>
      have hle := Cursor.le_of_next hnext
      have hlt := Cursor.lt_size_of_next hnext
      rw [replayWithin, replayFrom_eq hnext, hnext]
      simp only [bind_assoc]
      congr 1
      funext _
      congr 1
      funext ins
      by_cases hop : ins.op = .stop
      · rw [if_pos hop, if_pos hop]
      · -- The next turn starts behind `j`, so the mask has at least one instruction less left.
        rw [if_neg hop, if_neg hop, ih (by omega)]
        simp only [bind_assoc]

variable (P q mask resolved options) in
/-- The ways in which a replay ends that has come to its last instruction, `j`, in state `s`. -/
inductive Finishes (j : Nat) (s : ReplayState F) :
    EStateM.Result Stop (ReplayState F) Unit → Prop where
  | unread {f : Fault} (hins : P.instr j = .error f) : Finishes j s (.error (.fault f) s)
  /-- The instruction is `stop` and no block is open. -/
  | ends {ins : Instr} (hins : P.instr j = .ok ins) (hop : ins.op = .stop)
      (hframe : Call.phase s.frame = .start) : Finishes j s (.ok () s)
  | leftOpen {ins : Instr} (hins : P.instr j = .ok ins) (hop : ins.op = .stop)
      (hframe : Call.phase s.frame ≠ .start) :
      Finishes j s (.error (.fault (.callOpenAtStop (Call.phase s.frame))) s)
  /-- The instruction faults, or an operator refuses. -/
  | stops {ins : Instr} {stop : Stop} {s' : ReplayState F} (hins : P.instr j = .ok ins)
      (hop : ins.op ≠ .stop) (hstep : stepAt P q resolved options j ins s = .error stop s') :
      Finishes j s (.error stop s')
  /-- The cursor finds no unmarked instruction behind it. -/
  | lost {ins : Instr} {f : Fault} {s' : ReplayState F} (hins : P.instr j = .ok ins)
      (hop : ins.op ≠ .stop) (hstep : stepAt P q resolved options j ins s = .ok () s')
      (hnext : Cursor.next P mask (j + 1) = .error f) : Finishes j s (.error (.fault f) s')

omit [Scalar F] in
theorem checkClosed_eq (s : ReplayState F) : checkClosed s =
    if Call.phase s.frame = .start then .ok () s
    else .error (.fault (.callOpenAtStop (Call.phase s.frame))) s := by
  show (liftM (require (Call.phase s.frame = .start) _) : Replay F Unit) s = _
  unfold require
  split <;> rfl

/-- A replay without stations has found no unmarked instruction. -/
theorem replayFrom_of_stationsFrom_nil {s : ReplayState F}
    (h : stationsFrom P q mask resolved options i s = []) :
    ∃ f, replayFrom P q mask resolved options i s = .error (.fault f) s ∧
      Cursor.next P mask i = .error f := by
  have hpassage := passage P q mask resolved options i s
  rw [h] at hpassage
  generalize replayFrom P q mask resolved options i s = out at hpassage
  cases hpassage with
  | lost hnext => exact ⟨_, rfl, hnext⟩

/-- The stations of a replay are at strictly later and later instructions. -/
theorem pairwise_stationsFrom (i : Nat) (s : ReplayState F) :
    (stationsFrom P q mask resolved options i s).Pairwise fun t u => t.1 < u.1 := by
  induction i, s using replay_induct mask with
  | h i s ih =>
    have hpassage := passage P q mask resolved options i s
    generalize replayFrom P q mask resolved options i s = out at hpassage
    generalize stationsFrom P q mask resolved options i s = list at hpassage
    cases hpassage with
    | lost => exact .nil
    | unread | stops | halts => exact List.pairwise_singleton ..
    | @goesOn j events ins s' hstands hins hop hstep =>
      refine List.pairwise_cons.mpr ⟨?_, ih j s' hstands.le (Cursor.lt_size_of_next hstands.next)⟩
      rintro ⟨k, t⟩ hmem
      exact (of_mem_stationsFrom hmem).1

/-- A replay ends at its last station. -/
theorem finishes_replayFrom (i : Nat) (s : ReplayState F) {last : Nat × ReplayState F}
    (h : (stationsFrom P q mask resolved options i s).getLast? = some last) :
    Finishes P q mask resolved options last.1 last.2
      (replayFrom P q mask resolved options i s) := by
  induction i, s using replay_induct mask with
  | h i s ih =>
    have hpassage := passage P q mask resolved options i s
    generalize replayFrom P q mask resolved options i s = out at hpassage
    generalize stationsFrom P q mask resolved options i s = list at hpassage h
    cases hpassage with
    | lost => cases h
    | unread hstands hins =>
      cases h
      exact .unread hins
    | stops hstands hins hop =>
      cases h
      rw [checkClosed_eq]
      split
      · next hframe => exact .ends hins hop hframe
      · next hframe => exact .leftOpen hins hop hframe
    | halts hstands hins hop hstep =>
      cases h
      exact .stops hins hop hstep
    | @goesOn j events ins s' hstands hins hop hstep =>
      -- If nothing follows, the cursor has faulted behind `j`; else a later station is the last.
      cases hrest : stationsFrom P q mask resolved options (j + 1) s' with
      | nil =>
        rw [hrest] at h
        cases h
        obtain ⟨f, hout, hnext⟩ := replayFrom_of_stationsFrom_nil hrest
        rw [hout]
        exact .lost hins hop hstep hnext
      | cons first rest =>
        rw [hrest, List.getLast?_cons_cons, ← hrest] at h
        exact ih j s' hstands.le (Cursor.lt_size_of_next hstands.next) h

/-- Stops early at faults only. -/
def FaultsOnly {α : Type} (m : Replay F α) : Prop :=
  ∀ s stop s', m s = .error stop s' → ∃ f, stop = .fault f

namespace FaultsOnly

variable {α β : Type}

omit [Scalar F] in
theorem bind {m : Replay F α} {k : α → Replay F β} (hm : FaultsOnly m)
    (hk : ∀ x, FaultsOnly (k x)) : FaultsOnly (m >>= k) := by
  intro s stop s' h
  cases hrun : m s with
  | ok x s₁ =>
    rw [bind_of_ok hrun] at h
    exact hk x s₁ stop s' h
  | error stop₁ s₁ =>
    rw [bind_of_error hrun] at h
    cases h
    exact hm s stop s' hrun

omit [Scalar F] in
theorem lift (m : Except Fault α) : FaultsOnly (liftM m : Replay F α) := by
  intro s stop s' h
  cases m with
  | ok x => cases h
  | error f =>
    cases h
    exact ⟨f, rfl⟩

omit [Scalar F] in
/-- What always comes out well never stops early. -/
theorem of_ok {m : Replay F α} (h : ∀ s, ∃ x s', m s = .ok x s') : FaultsOnly m := by
  intro s stop s' hstop
  obtain ⟨x, s₁, hrun⟩ := h s
  cases hrun.symm.trans hstop

end FaultsOnly

omit [Scalar F] in
theorem faultsOnly_sweepHead : FaultsOnly (sweepHead P q mask resolved options) := by
  refine .bind (.of_ok fun s => ⟨s, s, rfl⟩) fun s => ?_
  refine .bind (.lift _) fun _ => .bind (.lift _) fun _ => ?_
  refine .bind (.of_ok fun s => ?_) fun _ => .bind (.lift _) fun _ => ?_
  · obtain ⟨events, h⟩ := report_eq options _ s
    exact ⟨_, _, h⟩
  · exact .bind (.of_ok fun s => ⟨(), _, rfl⟩) fun _ => .lift _

variable (P q mask resolved options a) in
/-- The ways in which a sweep begins. -/
inductive Begins : Prop where
  /-- A check fails, before anything has been changed. -/
  | faults {f : Fault} {s : ReplayState F}
      (hsweep : sweep P q mask resolved options { arena := a } = .error (.fault f) s)
      (harena : s.arena = a) (hstations : stations P q mask resolved options a = [])
      (hwithin : ∀ n, sweepWithin P q mask resolved options n { arena := a } =
        .error (.fault f) s)
  /-- The replay loop starts behind the independents. -/
  | replays {events : Array (Event F)} (hmask : mask.size = P.instrCount)
      (hsweep : sweep P q mask resolved options { arena := a } =
        replayFrom P q mask resolved options (P.independentCount + 1) { arena := a, events })
      (hstations : stations P q mask resolved options a =
        stationsFrom P q mask resolved options (P.independentCount + 1) { arena := a, events })
      (hwithin : ∀ n, sweepWithin P q mask resolved options n { arena := a } =
        replayWithin P q mask resolved options n (P.independentCount + 1) { arena := a, events })

variable (P q mask resolved options a) in
theorem begins : Begins P q mask resolved options a := by
  have hhead := ends_sweepHead P q mask resolved options a
  unfold Ends at hhead
  cases h : sweepHead P q mask resolved options { arena := a } with
  | error stop s =>
    rw [h] at hhead
    obtain ⟨f, rfl⟩ := faultsOnly_sweepHead _ _ _ h
    refine .faults ?_ hhead ?_ fun n => bind_of_error h
    · rw [sweep_eq, bind_of_error h]
    · rw [stations, h]
  | ok i s =>
    rw [h] at hhead
    obtain ⟨hshapes, rfl, events, rfl⟩ := hhead
    simp only [checkShapes, bind_eq_ok_iff, require_eq_ok_iff] at hshapes
    obtain ⟨-, -, -, -, -, -, -, -, -, hmask, -⟩ := hshapes
    refine .replays hmask ?_ ?_ fun n => bind_of_ok h
    · rw [sweep_eq, bind_of_ok h]
    · rw [stations, h]

theorem pairwise_stations :
    (stations P q mask resolved options a).Pairwise fun s t => s.1 < t.1 := by
  cases begins P q mask resolved options a with
  | faults _ _ hstations =>
    rw [hstations]
    exact .nil
  | replays _ _ hstations =>
    rw [hstations]
    exact pairwise_stationsFrom _ _

/-- The stations of a sweep lie behind the independents and inside the program. -/
theorem lt_of_mem_stations {j : Nat} {s : ReplayState F}
    (h : (j, s) ∈ stations P q mask resolved options a) :
    P.independentCount < j ∧ j < P.instrCount := by
  cases begins P q mask resolved options a with
  | faults _ _ hstations =>
    rw [hstations] at h
    cases h
  | replays hmask _ hstations =>
    rw [hstations] at h
    obtain ⟨hle, hunmarked⟩ := of_mem_stationsFrom h
    obtain ⟨hlt, -⟩ := Array.getElem?_eq_some_iff.mp hunmarked
    omega

/-- A sweep without stations has faulted and left the arena as it was. -/
theorem sweep_of_stations_nil (h : stations P q mask resolved options a = []) :
    ∃ f s, sweep P q mask resolved options { arena := a } = .error (.fault f) s ∧ s.arena = a := by
  cases begins P q mask resolved options a with
  | faults hsweep harena => exact ⟨_, _, hsweep, harena⟩
  | replays _ hsweep hstations =>
    rw [hstations] at h
    obtain ⟨f, hout, -⟩ := replayFrom_of_stationsFrom_nil h
    exact ⟨f, _, hsweep.trans hout, rfl⟩

/-- A sweep ends at its last station. -/
theorem finishes_sweep {last : Nat × ReplayState F}
    (h : (stations P q mask resolved options a).getLast? = some last) :
    Finishes P q mask resolved options last.1 last.2
      (sweep P q mask resolved options { arena := a }) := by
  cases begins P q mask resolved options a with
  | faults _ _ hstations =>
    rw [hstations] at h
    cases h
  | replays _ hsweep hstations =>
    rw [hstations] at h
    rw [hsweep]
    exact finishes_replayFrom _ _ h

/-- The loop of a sweep comes to its end within one turn for each instruction, and one more. -/
theorem sweepWithin_eq (h : P.instrCount < n) :
    sweepWithin P q mask resolved options n { arena := a } =
      (sweep P q mask resolved options >>= fun _ => pure true) { arena := a } := by
  cases begins P q mask resolved options a with
  | faults hsweep _ _ hwithin => rw [hwithin n, bind_of_error hsweep]
  | @replays events hmask hsweep _ hwithin =>
    rw [hwithin n, replayWithin_eq (by omega)]
    show EStateM.bind _ _ _ = EStateM.bind _ _ _
    simp only [EStateM.bind, hsweep]

/-- The cursor and the replay loop make progress, whatever the program and the mask are. The loop of
the cursor ends within one turn for each position that the mask has left, and one more. Either it
gives the unmarked position where it stays, and has passed marked instructions and marked blocks
before it; or it faults behind such instructions, for one of the reasons that `Fails` lists. So the
loop of a sweep ends too. It comes to stand at later and later instructions of the program, at none
of them twice. Where it comes to none, the sweep has faulted before it has changed the arena; else
it ends at the last one, in one of the ways that `Finishes` lists. -/
theorem sweep_progresses (P : Program F) (mask : Array Bool) :
    (∀ i, (∀ n, mask.size - i < n →
        Cursor.nextWithin P mask n i = some (Cursor.next P mask i)) ∧
      match Cursor.next P mask i with
      | .ok j => i ≤ j ∧ j < mask.size ∧ mask[j]? = some false ∧ Cursor.next P mask j = .ok j ∧
          Cursor.Passes P mask i j
      | .error f => ∃ k, Cursor.Passes P mask i k ∧ Cursor.Fails P mask k f) ∧
    ∀ (q : Nat) (resolved : Array Nat) (options : Options) (a : Arena F),
      let list := stations P q mask resolved options a
      let out := sweep P q mask resolved options { arena := a }
      (∀ n, P.instrCount < n → sweepWithin P q mask resolved options n { arena := a } =
        (sweep P q mask resolved options >>= fun _ => pure true) { arena := a }) ∧
      (list.Pairwise fun s t => s.1 < t.1) ∧
      (∀ j s, (j, s) ∈ list → P.independentCount < j ∧ j < P.instrCount ∧
        mask[j]? = some false ∧ out = replayFrom P q mask resolved options j s) ∧
      (list = [] → ∃ f s, out = .error (.fault f) s ∧ s.arena = a) ∧
      ∀ last, list.getLast? = some last →
        Finishes P q mask resolved options last.1 last.2 out := by
  refine ⟨fun i => ⟨fun n hn => Cursor.nextWithin_eq hn, ?_⟩, fun q resolved options a => ?_⟩
  · have hways := Cursor.ways P mask i
    cases hnext : Cursor.next P mask i with
    | error f =>
      rw [hnext] at hways
      exact hways
    | ok j =>
      rw [hnext] at hways
      exact ⟨Cursor.le_of_next hnext, Cursor.lt_size_of_next hnext, hways.2,
        Cursor.next_of_unmarked hways.2, hways.1⟩
  · refine ⟨fun n hn => sweepWithin_eq hn, pairwise_stations, fun j s hmem => ?_,
      sweep_of_stations_nil, fun last hlast => finishes_sweep hlast⟩
    obtain ⟨hindependent, hlt⟩ := lt_of_mem_stations hmem
    exact ⟨hindependent, hlt, (le_of_mem_stations hmem).2, run_of_mem_stations hmem⟩

/-- A program without an end. Behind a function, a call and a sum there is a marker that counts more
arguments than there are instructions. -/
def endlessProgram : Program ℚ :=
  .ofInstrs #[⟨.start, [0], 0⟩, ⟨.independent, [], 1⟩, ⟨.elementary .exp, [1], 2⟩,
    ⟨.callMarker, [0, 7, 1, 1], 2⟩, ⟨.callArg .var, [1], 2⟩, ⟨.callResult .var, [], 3⟩,
    ⟨.callMarker, [0, 7, 1, 1], 3⟩, ⟨.arithmetic .addVV, [1, 1], 4⟩,
    ⟨.callMarker, [0, 8, 40, 0], 4⟩]
    5 1 0 #[] #[.echo]

/-- Marks the function and both opening markers. -/
def endlessMask : Array Bool := #[false, false, true, true, false, false, false, false, true]

/-- The cursor passes the function and the call as a whole, and the sweep comes to the sum only. It
faults behind it, where a block ought to be closed outside the program. -/
theorem endlessProgram_sweep_progresses :
    let a : Arena ℚ := ⟨⟨2, 1⟩, #[0, 0, 2, 3, 5, 7, 11, 13, 17, 19]⟩
    let list := stations endlessProgram 1 endlessMask #[] {} a
    let out := sweep endlessProgram 1 endlessMask #[] {} { arena := a }
    Cursor.nextWithin endlessProgram endlessMask 10 2 = some (.ok 7) ∧
      Cursor.Passes endlessProgram endlessMask 2 7 ∧
      (∃ s, list = [(7, s)] ∧ Finishes endlessProgram 1 endlessMask #[] {} 7 s out) ∧
      ((sweep endlessProgram 1 endlessMask #[] {}).run a).stop =
        some (.fault (.skippedCallNotClosed "echo" 49)) := by
  intro a list out
  obtain ⟨hcursor, hsweep⟩ := sweep_progresses endlessProgram endlessMask
  obtain ⟨-, -, -, -, hfinishes⟩ := hsweep 1 #[] {} a
  have hnext : Cursor.next endlessProgram endlessMask 2 = .ok 7 := by decide +kernel
  obtain ⟨hturns, hways⟩ := hcursor 2
  rw [hnext] at hturns hways
  have hlist : list.map (·.1) = [7] := by decide +kernel
  obtain ⟨⟨j, s⟩, hlist, hj⟩ := List.map_eq_singleton_iff.mp hlist
  obtain rfl : j = 7 := hj
  have hlast : list.getLast? = some (7, s) := by rw [hlist]; rfl
  exact ⟨hturns 10 (by decide), hways.2.2.2.2, ⟨s, hlist, hfinishes (7, s) hlast⟩,
    by decide +kernel⟩

end JetTape.Replay
