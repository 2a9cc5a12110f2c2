import JetTape.Proofs.Replay.Leads
import JetTape.Proofs.Replay.Stations

/-!
Replays that come to the same. Two replays are alike if from states with one core they end in states
with one core and with the same result or stop, where all faults count as the same. What is reported
and where an instruction stands makes no difference to a step.
-/
namespace JetTape.Replay

open Call (Frame)

variable {F : Type} {α β : Type}

/-- The ends are the same, or both are faults. -/
def SameEnd (out out' : Except Stop α) : Prop :=
  out = out' ∨ ∃ f f', out = .error (.fault f) ∧ out' = .error (.fault f')

def Alike (m m' : Replay F α) : Prop :=
  ∀ c, ∃ out out' c', Leads m c out c' ∧ Leads m' c out' c' ∧ SameEnd out out'

namespace Alike

theorem of_leads {m m' : Replay F α} {c c' : Core F} {out : Except Stop α} (h : Leads m c out c')
    (h' : Leads m' c out c') :
    ∃ out out' c', Leads m c out c' ∧ Leads m' c out' c' ∧ SameEnd out out' :=
  ⟨out, out, c', h, h', Or.inl rfl⟩

/-- What follows has to be alike only for the results that come. -/
theorem bind_of {m m' : Replay F α} {k k' : α → Replay F β} (hm : Alike m m')
    (hk : ∀ x s s', m s = .ok x s' → Alike (k x) (k' x)) : Alike (m >>= k) (m' >>= k') := by
  intro c
  obtain ⟨out, out', c₁, h, h', hsame⟩ := hm c
  rcases hsame with rfl | ⟨f, f', rfl, rfl⟩
  · cases out with
    | ok x =>
      obtain ⟨s, hs, -⟩ := h ⟨c.arena, c.frame, c.requests, #[]⟩ rfl
      obtain ⟨out, out', c₂, hx, hx', hsame⟩ := hk x _ s hs c₁
      exact ⟨out, out', c₂, h.bind hx, h'.bind hx', hsame⟩
    | error stop => exact of_leads h.bind_error h'.bind_error
  · exact ⟨_, _, c₁, h.bind_error, h'.bind_error, Or.inr ⟨f, f', rfl, rfl⟩⟩

theorem bind {m m' : Replay F α} {k k' : α → Replay F β} (hm : Alike m m')
    (hk : ∀ x, Alike (k x) (k' x)) : Alike (m >>= k) (m' >>= k') :=
  hm.bind_of fun x _ _ _ => hk x

/-- From states with one core alike replays come to results that are the same and to states with one
core, or neither comes to a result. -/
theorem cases {m m' : Replay F α} {s s' : ReplayState F} (h : Alike m m') (hs : s.core = s'.core) :
    (∃ x s₁ s₁', m s = .ok x s₁ ∧ m' s' = .ok x s₁' ∧ s₁.core = s₁'.core) ∨
      ∃ stop stop' s₁ s₁', m s = .error stop s₁ ∧ m' s' = .error stop' s₁' := by
  obtain ⟨out, out', c, hleads, hleads', hsame⟩ := h s.core
  obtain ⟨s₁, hrun, hs₁⟩ := hleads s rfl
  obtain ⟨s₁', hrun', hs₁'⟩ := hleads' s' hs.symm
  rcases hsame with rfl | ⟨f, f', rfl, rfl⟩
  · cases out with
    | ok x => exact Or.inl ⟨x, s₁, s₁', hrun, hrun', hs₁.trans hs₁'.symm⟩
    | error stop => exact Or.inr ⟨stop, stop, s₁, s₁', hrun, hrun'⟩
  · exact Or.inr ⟨_, _, s₁, s₁', hrun, hrun'⟩

theorem pure (x : α) : Alike (pure x : Replay F α) (pure x) :=
  fun _ => of_leads (leads_pure x) (leads_pure x)

theorem throw (stop : Stop) : Alike (throw stop : Replay F α) (throw stop) :=
  fun _ => of_leads (leads_throw stop) (leads_throw stop)

theorem fault (f f' : Fault) :
    Alike (MonadExcept.throw (Stop.fault f) : Replay F α) (MonadExcept.throw (Stop.fault f')) :=
  fun c => ⟨_, _, c, leads_throw _, leads_throw _, Or.inr ⟨f, f', rfl, rfl⟩⟩

/-- A replay may look at the core of its state. -/
theorem get {k k' : ReplayState F → Replay F α}
    (hk : ∀ s s', s.core = s'.core → k s = k s' ∧ k' s = k' s')
    (h : ∀ s, Alike (k s) (k' s)) : Alike (MonadState.get >>= k) (MonadState.get >>= k') := by
  intro c
  let s₀ : ReplayState F := { arena := c.arena, frame := c.frame, requests := c.requests }
  obtain ⟨out, out', c', hleads, hleads', hsame⟩ := h s₀ c
  have hcore (s : ReplayState F) (hs : s.core = c) : k s = k s₀ ∧ k' s = k' s₀ := hk s s₀ hs
  refine ⟨out, out', c', Leads.get fun s hs => ?_, Leads.get fun s hs => ?_, hsame⟩
  · rwa [(hcore s hs).1]
  · rwa [(hcore s hs).2]

/-- A replay may look at the open block. -/
theorem get_frame {k : ReplayState F → Replay F α}
    (hk : ∀ s s', s.frame = s'.frame → k s = k s') (h : ∀ s, Alike (k s) (k s)) :
    Alike (MonadState.get >>= k) (MonadState.get >>= k) :=
  get (fun s s' hs => and_self_iff.mpr (hk s s' (congrArg Core.frame hs))) h

theorem ok (m : Except Fault α) : Alike (liftM m : Replay F α) (liftM m) := by
  intro c
  cases hm : m with
  | ok x => exact of_leads (leads_ok rfl) (leads_ok rfl)
  | error f => exact of_leads (leads_fault rfl) (leads_fault rfl)

theorem update (m : Arena.Update F α) : Alike (liftM m : Replay F α) (liftM m) := by
  rintro ⟨a, frame, requests⟩
  cases hm : m a with
  | ok x b => exact of_leads (leads_update hm) (leads_update hm)
  | error f b => exact of_leads (leads_update_error hm) (leads_update_error hm)

theorem read (m : Arena.Read F α) : Alike (liftM m : Replay F α) (liftM m) :=
  update (liftM m)

theorem setFrame (f : Option (Frame F)) : Alike (setFrame f) (Replay.setFrame f) :=
  fun _ => of_leads leads_setFrame leads_setFrame

theorem request (r : Request F) : Alike (request r) (Replay.request r) :=
  fun _ => of_leads (leads_request r) (leads_request r)

/-- It does not matter what is reported. -/
theorem report (options : Options) (e e' : Event F) :
    Alike (report options e) (Replay.report options e') :=
  fun _ => of_leads (leads_report options e) (leads_report options e')

theorem fold {step step' : α → Nat → Replay F α} (h : ∀ x l, Alike (step x l) (step' x l))
    (n i : Nat) (x : α) : Alike (Loop.fold n i step x) (Loop.fold n i step' x) := by
  induction n generalizing i x with
  | zero => exact pure x
  | succ n ih => exact (h x i).bind fun x => ih (i + 1) x

end Alike

section Steps

variable [Scalar F] {P P' : Program F} {q i i' : Nat} {resolved : Array Nat} {options : Options}

theorem alike_ask {operator : Operator F} {f : Frame F} {l : Nat} :
    Alike (ask options operator q f l) (ask options operator q f l) := by
  refine (Alike.request _).bind fun _ => ?_
  split
  · exact .pure _
  · exact (Alike.report options _ _).bind fun _ => .throw _
  · exact .throw _

theorem alike_marker {site : CallSite F} :
    Alike (marker options q site) (marker options q site) := by
  refine .get_frame (fun s s' h => by simp only [h]) fun s => ?_
  cases s.frame with
  | none =>
    exact (Alike.read _).bind fun _ => (Alike.ok _).bind fun _ => .setFrame _
  | some f =>
    dsimp only
    split
    · refine (Alike.ok _).bind fun _ => (Alike.setFrame none).bind fun _ =>
        (Alike.read _).bind fun _ => ?_
      exact (Alike.fold (fun _ _ => alike_ask) _ _ _).bind fun _ => .update _
    · exact .throw _

omit [Scalar F] in
theorem alike_takeArg {value : Nat → Nat → Arena.Read F F} :
    Alike (takeArg value) (takeArg value) := by
  refine .get_frame (fun s s' h => by simp only [h]) fun s => ?_
  cases s.frame with
  | none => exact .throw _
  | some f => exact (Alike.ok _).bind fun _ => (Alike.read _).bind fun _ => .setFrame _

omit [Scalar F] in
theorem alike_takeResult {row : Nat} {value : Nat → Nat → Arena.Read F F} :
    Alike (takeResult row value) (takeResult row value) := by
  refine .get_frame (fun s s' h => by simp only [h]) fun s => ?_
  cases s.frame with
  | none => exact .throw _
  | some f => exact (Alike.ok _).bind fun _ => (Alike.read _).bind fun _ => .setFrame _

omit [Scalar F] in
/-- The reports of an instruction differ in its index only. -/
theorem alike_trace {ins : Instr} :
    Alike (trace options q i ins : Replay F Unit) (trace options q i' ins) := by
  unfold trace
  split
  · split
    · exact .report options _ _
    · exact (Alike.read _).bind fun _ => (Alike.read _).bind fun _ => (Alike.read _).bind fun _ =>
        .report options _ _
  · exact .pure _

/-- A step looks at the parameters and the operators of a program, but not at its place there. -/
theorem alike_step {ins : Instr} (hparams : P'.params = P.params)
    (hcallSite : P'.callSite = P.callSite) :
    Alike (step P q resolved options i ins) (step P' q resolved options i' ins) := by
  unfold step
  rw [hparams, hcallSite]
  split
  · exact .fault _ _
  · exact .fault _ _
  · exact (Alike.ok _).bind fun _ => alike_marker
  · exact (Alike.ok _).bind fun _ => (Alike.ok _).bind fun _ => alike_takeArg
  · exact (Alike.ok _).bind fun _ => alike_takeArg
  · exact (Alike.ok _).bind fun _ => (Alike.ok _).bind fun _ => alike_takeResult
  · exact alike_takeResult
  · exact .update _
  · split
    · exact .update _
    · exact .pure _

theorem alike_stepAt {ins : Instr} (hparams : P'.params = P.params)
    (hcallSite : P'.callSite = P.callSite) :
    Alike (stepAt P q resolved options i ins) (stepAt P' q resolved options i' ins) :=
  (alike_step hparams hcallSite).bind fun _ => alike_trace

omit [Scalar F] in
theorem alike_checkClosed : Alike (checkClosed : Replay F Unit) checkClosed :=
  .get_frame (fun s s' h => by simp only [h]) fun _ => .ok _

end Steps

end JetTape.Replay
