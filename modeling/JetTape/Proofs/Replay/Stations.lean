import JetTape.Replay.Sweep

/-!
The stations of a replay: the instructions at which its cursor comes to stand, in order, each with
the state in which it is found. From every station the replay goes on as it would have started
there, so what is said of a station is said of the replay.
-/
namespace JetTape.Replay

variable {F : Type} [Scalar F] (P : Program F) (q : Nat) (mask : Array Bool)
  (resolved : Array Nat) (options : Options)

/-- Replays an instruction other than `stop` and reports it. -/
def stepAt (j : Nat) (ins : Instr) : Replay F Unit := do
  step P q resolved options j ins
  trace options q j ins

/-- The stations of the replay that goes on at instruction `i` in state `s`. -/
def stationsFrom (i : Nat) (s : ReplayState F) : List (Nat × ReplayState F) :=
  match _h : Cursor.next P mask i with
  | .error _ => []
  | .ok j =>
    match reportSkipped options i j s with
    | .error _ _ => []
    | .ok _ s =>
      (j, s) :: match P.instr j with
        | .error _ => []
        | .ok ins =>
          if ins.op = .stop then []
          else
            match stepAt P q resolved options j ins s with
            | .error _ _ => []
            | .ok _ s => stationsFrom (j + 1) s
termination_by mask.size - i
decreasing_by
  have hle := Cursor.le_of_next _h
  have hlt := Cursor.lt_size_of_next _h
  omega

/-- What a sweep does before its first station: it makes its checks and finds the first instruction
after the independents. -/
def sweepHead : Replay F Nat := do
  let a := (← get).arena
  checkShapes P q mask resolved a
  checkHead P
  report options (.sweepStarts q a.layout.directions P.instrCount P.rowCount)
  let _ ← Arena.ofCells a.layout a.cells
  setFrame none
  Index.add P.independentCount 1

/-- The stations of a sweep over an arena. -/
def stations (a : Arena F) : List (Nat × ReplayState F) :=
  match sweepHead P q mask resolved options { arena := a } with
  | .error _ _ => []
  | .ok i s => stationsFrom P q mask resolved options i s

variable {P q mask resolved options}

theorem sweep_eq : sweep P q mask resolved options =
    sweepHead P q mask resolved options >>= replayFrom P q mask resolved options := by
  simp only [sweep, sweepHead, bind_assoc]

section Binds

variable {α β : Type} {m : Replay F α} {k : α → Replay F β} {s s' : ReplayState F}

omit [Scalar F] in
theorem bind_of_ok {x : α} (h : m s = .ok x s') : (m >>= k) s = k x s' := by
  show EStateM.bind m k s = _
  simp only [EStateM.bind, h]

omit [Scalar F] in
theorem bind_of_error {stop : Stop} (h : m s = .error stop s') :
    (m >>= k) s = .error stop s' := by
  show EStateM.bind m k s = _
  simp only [EStateM.bind, h]

end Binds

omit [Scalar F] in
/-- A report leaves everything but the events as it was. -/
theorem report_eq (options : Options) (e : Event F) (s : ReplayState F) :
    ∃ events, report options e s = .ok () { s with events } := by
  unfold report
  split
  · exact ⟨_, rfl⟩
  · exact ⟨_, rfl⟩

omit [Scalar F] in
theorem reportSkipped_eq (options : Options) (i j : Nat) (s : ReplayState F) :
    ∃ events, reportSkipped options i j s = .ok () { s with events } := by
  unfold reportSkipped
  split
  · exact report_eq options _ s
  · exact ⟨_, rfl⟩

/-- From instruction `i` in state `s` the cursor comes to stand at instruction `j`, and with what
has been reported by then the events are as given. -/
structure Stands (P : Program F) (mask : Array Bool) (options : Options) (i : Nat)
    (s : ReplayState F) (j : Nat) (events : Array (Event F)) : Prop where
  next : Cursor.next P mask i = .ok j
  skipped : reportSkipped options i j s = .ok () { s with events }

/-- The ways in which a replay goes on at instruction `i` in state `s`, with its end and its
stations. -/
inductive Passage (P : Program F) (q : Nat) (mask : Array Bool) (resolved : Array Nat)
    (options : Options) (i : Nat) (s : ReplayState F) :
    EStateM.Result Stop (ReplayState F) Unit → List (Nat × ReplayState F) → Prop where
  /-- The cursor finds no unmarked instruction. -/
  | lost {f : Fault} (hnext : Cursor.next P mask i = .error f) :
      Passage P q mask resolved options i s (.error (.fault f) s) []
  | unread {j : Nat} {events : Array (Event F)} {f : Fault}
      (hstands : Stands P mask options i s j events) (hins : P.instr j = .error f) :
      Passage P q mask resolved options i s (.error (.fault f) { s with events })
        [(j, { s with events })]
  | stops {j : Nat} {events : Array (Event F)} {ins : Instr}
      (hstands : Stands P mask options i s j events) (hins : P.instr j = .ok ins)
      (hop : ins.op = .stop) :
      Passage P q mask resolved options i s (checkClosed { s with events })
        [(j, { s with events })]
  | halts {j : Nat} {events : Array (Event F)} {ins : Instr} {stop : Stop} {s' : ReplayState F}
      (hstands : Stands P mask options i s j events) (hins : P.instr j = .ok ins)
      (hop : ins.op ≠ .stop)
      (hstep : stepAt P q resolved options j ins { s with events } = .error stop s') :
      Passage P q mask resolved options i s (.error stop s') [(j, { s with events })]
  | goesOn {j : Nat} {events : Array (Event F)} {ins : Instr} {s' : ReplayState F}
      (hstands : Stands P mask options i s j events) (hins : P.instr j = .ok ins)
      (hop : ins.op ≠ .stop)
      (hstep : stepAt P q resolved options j ins { s with events } = .ok () s') :
      Passage P q mask resolved options i s (replayFrom P q mask resolved options (j + 1) s')
        ((j, { s with events }) :: stationsFrom P q mask resolved options (j + 1) s')

theorem replayFrom_eq {i j : Nat} (hnext : Cursor.next P mask i = .ok j) :
    replayFrom P q mask resolved options i = (do
      reportSkipped options i j
      let ins ← P.instr j
      if ins.op = .stop then
        checkClosed
      else
        step P q resolved options j ins
        trace options q j ins
        replayFrom P q mask resolved options (j + 1)) := by
  rw [replayFrom]
  split
  · rename_i f hf
    rw [hf] at hnext
    cases hnext
  · rename_i k hk
    rw [hk] at hnext
    cases hnext
    rfl

theorem replayFrom_of_error {i : Nat} {f : Fault} (hnext : Cursor.next P mask i = .error f) :
    replayFrom P q mask resolved options i = (throw (.fault f) : Replay F Unit) := by
  rw [replayFrom]
  split
  · rename_i g hg
    rw [hg] at hnext
    cases hnext
    rfl
  · rename_i k hk
    rw [hk] at hnext
    cases hnext

/-- The stations from an instruction on at which the cursor stands. -/
theorem stationsFrom_eq {i j : Nat} (hnext : Cursor.next P mask i = .ok j)
    {s : ReplayState F} {events : Array (Event F)}
    (hskipped : reportSkipped options i j s = .ok () { s with events }) :
    stationsFrom P q mask resolved options i s =
      (j, { s with events }) :: match P.instr j with
        | .error _ => []
        | .ok ins =>
          if ins.op = .stop then []
          else
            match stepAt P q resolved options j ins { s with events } with
            | .error _ _ => []
            | .ok _ s => stationsFrom P q mask resolved options (j + 1) s := by
  rw [stationsFrom]
  split
  · rename_i f hf
    rw [hf] at hnext
    cases hnext
  · rename_i k hk
    rw [hk] at hnext
    cases hnext
    rw [hskipped]

theorem stationsFrom_of_error {i : Nat} {f : Fault} (hnext : Cursor.next P mask i = .error f)
    (s : ReplayState F) : stationsFrom P q mask resolved options i s = [] := by
  rw [stationsFrom]
  split
  · rfl
  · rename_i k hk
    rw [hk] at hnext
    cases hnext

variable (P q mask resolved options) in
/-- The replay and its stations go on in one and the same way. -/
theorem passage (i : Nat) (s : ReplayState F) :
    Passage P q mask resolved options i s (replayFrom P q mask resolved options i s)
      (stationsFrom P q mask resolved options i s) := by
  cases hnext : Cursor.next P mask i with
  | error f =>
    rw [replayFrom_of_error hnext, stationsFrom_of_error hnext]
    exact .lost hnext
  | ok j =>
    obtain ⟨events, hskipped⟩ := reportSkipped_eq options i j s
    rw [stationsFrom_eq hnext hskipped, replayFrom_eq hnext]
    rw [bind_of_ok hskipped]
    cases hins : P.instr j with
    | error f => exact .unread ⟨hnext, hskipped⟩ hins
    | ok ins =>
      have hread : (liftM (Except.ok ins : Except Fault Instr) : Replay F Instr) { s with events } =
          .ok ins { s with events } := rfl
      rw [bind_of_ok hread]
      by_cases hop : ins.op = .stop
      · simp only [hop, if_true]
        exact .stops ⟨hnext, hskipped⟩ hins hop
      · simp only [hop, if_false]
        have hstepAt : (do
            step P q resolved options j ins
            trace options q j ins
            replayFrom P q mask resolved options (j + 1)) =
            stepAt P q resolved options j ins >>= fun _ =>
              replayFrom P q mask resolved options (j + 1) := by
          simp only [stepAt, bind_assoc]
        rw [hstepAt]
        cases hstep : stepAt P q resolved options j ins { s with events } with
        | ok u s' =>
          rw [bind_of_ok hstep]
          exact .goesOn ⟨hnext, hskipped⟩ hins hop hstep
        | error stop s' =>
          rw [bind_of_error hstep]
          exact .halts ⟨hnext, hskipped⟩ hins hop hstep

omit [Scalar F] in
/-- What holds of a replay if it holds of all that start later holds of every replay. -/
theorem replay_induct (mask : Array Bool) {motive : Nat → ReplayState F → Prop}
    (h : ∀ i s, (∀ j s', i ≤ j → j < mask.size → motive (j + 1) s') → motive i s) (i : Nat)
    (s : ReplayState F) : motive i s := by
  induction hn : mask.size - i using Nat.strongRecOn generalizing i s with
  | ind n ih => exact h i s fun j s' hle hlt => ih _ (by omega) (j + 1) s' rfl

namespace Stands

variable {i j : Nat} {s : ReplayState F} {events : Array (Event F)}

omit [Scalar F] in
theorem le (h : Stands P mask options i s j events) : i ≤ j := Cursor.le_of_next h.next

omit [Scalar F] in
theorem unmarked (h : Stands P mask options i s j events) : mask[j]? = some false :=
  Cursor.unmarked_of_next h.next

/-- Where the cursor stands the replay goes on as it would have started there. -/
theorem replayFrom_eq (h : Stands P mask options i s j events) :
    replayFrom P q mask resolved options i s =
      replayFrom P q mask resolved options j { s with events } := by
  have hskipped : reportSkipped options j j { s with events } = .ok () { s with events } := by
    unfold reportSkipped
    rw [if_neg (Nat.lt_irrefl j)]
    rfl
  rw [Replay.replayFrom_eq h.next, bind_of_ok h.skipped,
    Replay.replayFrom_eq (Cursor.next_of_unmarked h.unmarked), bind_of_ok hskipped]

end Stands

/-- Stations come in the order of their instructions, at unmarked ones. -/
theorem of_mem_stationsFrom {i j : Nat} {s s' : ReplayState F}
    (h : (j, s') ∈ stationsFrom P q mask resolved options i s) :
    i ≤ j ∧ mask[j]? = some false := by
  induction i, s using replay_induct mask with
  | h i s ih =>
    have hpassage := passage P q mask resolved options i s
    generalize replayFrom P q mask resolved options i s = out at hpassage
    generalize stationsFrom P q mask resolved options i s = list at hpassage h
    cases hpassage with
    | lost => cases h
    | unread hstands | stops hstands | halts hstands =>
      cases List.mem_singleton.mp h
      exact ⟨hstands.le, hstands.unmarked⟩
    | goesOn hstands =>
      rcases List.mem_cons.mp h with h | h
      · cases h
        exact ⟨hstands.le, hstands.unmarked⟩
      · have hle := hstands.le
        have hlater := ih _ _ hle (Cursor.lt_size_of_next hstands.next) h
        exact ⟨by omega, hlater.2⟩

/-- From a station the replay goes on as it would have started there. -/
theorem replayFrom_of_mem {i j : Nat} {s s' : ReplayState F}
    (h : (j, s') ∈ stationsFrom P q mask resolved options i s) :
    replayFrom P q mask resolved options i s = replayFrom P q mask resolved options j s' := by
  induction i, s using replay_induct mask with
  | h i s ih =>
    have hpassage := passage P q mask resolved options i s
    generalize hlist : stationsFrom P q mask resolved options i s = list at hpassage h
    generalize hout : replayFrom P q mask resolved options i s = out at hpassage
    cases hpassage with
    | lost => cases h
    | unread hstands | stops hstands | halts hstands =>
      cases List.mem_singleton.mp h
      rw [← hout, hstands.replayFrom_eq]
    | goesOn hstands =>
      rcases List.mem_cons.mp h with h | h
      · cases h
        rw [← hout, hstands.replayFrom_eq]
      · exact ih _ _ hstands.le (Cursor.lt_size_of_next hstands.next) h

/-- From a station the sweep goes on as a replay would that starts there. -/
theorem run_of_mem_stations {a : Arena F} {j : Nat} {s : ReplayState F}
    (h : (j, s) ∈ stations P q mask resolved options a) :
    sweep P q mask resolved options { arena := a } =
      replayFrom P q mask resolved options j s := by
  unfold stations at h
  rw [sweep_eq]
  split at h
  · cases h
  · rename_i i s' hhead
    rw [bind_of_ok hhead]
    exact replayFrom_of_mem h

end JetTape.Replay
