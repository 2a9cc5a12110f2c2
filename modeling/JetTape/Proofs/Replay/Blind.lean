import JetTape.Proofs.Replay.Leads
import JetTape.Proofs.Replay.Writes

/-!
What a replay does not look at. Its end and the arena that it leaves depend on the arena and on the
open block, but not on what has been requested and reported before. A sweep closes any block that is
open before it starts, so of its state it sees the arena alone.
-/
namespace JetTape

open Call (Frame)

variable {F α β V : Type}

/-- What the steps of a replay see of its state. -/
def ReplayState.scene (s : ReplayState F) : Arena F × Option (Frame F) := (s.arena, s.frame)

namespace Replay

/-- From states of which the replay sees the same it comes to the same end, in states of which it
sees the same again. -/
def Blind (view : ReplayState F → V) (m : Replay F α) : Prop :=
  ∀ s s', view s = view s' →
    ∃ out u u', m s = ending out u ∧ m s' = ending out u' ∧ view u = view u'

namespace Blind

variable {view : ReplayState F → V}

theorem bind {m : Replay F α} {k : α → Replay F β} (hm : Blind view m)
    (hk : ∀ x, Blind view (k x)) : Blind view (m >>= k) := by
  intro s s' hs
  obtain ⟨out, u, u', h, h', hu⟩ := hm s s' hs
  cases out with
  | ok x =>
    obtain ⟨out, w, w', hx, hx', hw⟩ := hk x u u' hu
    exact ⟨out, w, w', (bind_of_ok h).trans hx, (bind_of_ok h').trans hx', hw⟩
  | error stop => exact ⟨.error stop, u, u', bind_of_error h, bind_of_error h', hu⟩

theorem pure (x : α) : Blind view (pure x : Replay F α) :=
  fun s s' hs => ⟨.ok x, s, s', rfl, rfl, hs⟩

theorem throw (stop : Stop) : Blind view (throw stop : Replay F α) :=
  fun s s' hs => ⟨.error stop, s, s', rfl, rfl, hs⟩

theorem ok (m : Except Fault α) : Blind view (liftM m : Replay F α) := by
  intro s s' hs
  cases m with
  | ok x => exact ⟨.ok x, s, s', rfl, rfl, hs⟩
  | error f => exact ⟨.error (.fault f), s, s', rfl, rfl, hs⟩

/-- A replay may look at what it sees. -/
theorem get {k : ReplayState F → Replay F α} (hsame : ∀ s s', view s = view s' → k s = k s')
    (hk : ∀ s, Blind view (k s)) : Blind view (MonadState.get >>= k) := by
  intro s s' hs
  obtain ⟨out, u, u', h, h', hu⟩ := hk s s s' hs
  refine ⟨out, u, u', h, ?_, hu⟩
  show k s' s' = _
  rw [← hsame s s' hs]
  exact h'

theorem each {body : Nat → Replay F Unit} (h : ∀ i, Blind view (body i)) (n i : Nat) :
    Blind view (Loop.each n i body) := by
  induction n generalizing i with
  | zero => exact pure ()
  | succ n ih => exact (h i).bind fun _ => ih (i + 1)

theorem fold {step : α → Nat → Replay F α} (h : ∀ x i, Blind view (step x i)) (n i : Nat) (x : α) :
    Blind view (Loop.fold n i step x) := by
  induction n generalizing i x with
  | zero => exact pure x
  | succ n ih => exact (h x i).bind fun x => ih (i + 1) x

end Blind

/-- Nothing that is seen changes with a report. -/
theorem blind_report {view : ReplayState F → V}
    (hview : ∀ (s : ReplayState F) events, view { s with events } = view s) (options : Options)
    (e : Event F) : Blind view (report options e) := by
  intro s s' hs
  obtain ⟨events, h⟩ := report_eq options e s
  obtain ⟨events', h'⟩ := report_eq options e s'
  exact ⟨.ok (), _, _, h, h', (hview s _).trans (hs.trans (hview s' _).symm)⟩

section Scene

open ReplayState (scene)

theorem blind_update (m : Arena.Update F α) : Blind scene (liftM m : Replay F α) := by
  rintro ⟨a, frame, requests, events⟩ ⟨a', frame', requests', events'⟩ hs
  obtain ⟨rfl, rfl⟩ := Prod.mk.inj hs
  cases hm : m a with
  | ok x b =>
    refine ⟨.ok x, ⟨b, frame, requests, events⟩, ⟨b, frame, requests', events'⟩, ?_, ?_, rfl⟩ <;>
    · show update m _ = _
      simp only [update, hm]
      rfl
  | error f b =>
    refine ⟨.error (.fault f), ⟨b, frame, requests, events⟩, ⟨b, frame, requests', events'⟩,
      ?_, ?_, rfl⟩ <;>
    · show update m _ = _
      simp only [update, hm]
      rfl

theorem blind_read (m : Arena.Read F α) : Blind scene (liftM m : Replay F α) :=
  blind_update (liftM m)

theorem blind_setFrame (f : Option (Frame F)) : Blind scene (setFrame f) :=
  fun s s' hs => ⟨.ok (), { s with frame := f }, { s' with frame := f }, rfl, rfl,
    Prod.ext (congrArg Prod.fst hs :) rfl⟩

theorem blind_request (r : Request F) : Blind scene (request r) :=
  fun _ _ hs => ⟨.ok (), _, _, rfl, rfl, hs⟩

theorem blind_get_frame {k : ReplayState F → Replay F α}
    (hsame : ∀ s s', s.frame = s'.frame → k s = k s') (hk : ∀ s, Blind scene (k s)) :
    Blind scene (get >>= k) :=
  .get (fun s s' hs => hsame s s' (congrArg Prod.snd hs :)) hk

theorem blind_log (options : Options) (e : Event F) : Blind scene (report options e) :=
  blind_report (fun _ _ => rfl) options e

variable {q i j : Nat} {options : Options} {ins : Instr}

theorem blind_takeArg {value : Nat → Nat → Arena.Read F F} : Blind scene (takeArg value) := by
  refine blind_get_frame (fun s s' h => by simp only [h]) fun s => ?_
  cases s.frame with
  | none => exact .throw _
  | some f => exact (Blind.ok _).bind fun _ => (blind_read _).bind fun _ => blind_setFrame _

theorem blind_takeResult {row : Nat} {value : Nat → Nat → Arena.Read F F} :
    Blind scene (takeResult row value) := by
  refine blind_get_frame (fun s s' h => by simp only [h]) fun s => ?_
  cases s.frame with
  | none => exact .throw _
  | some f => exact (Blind.ok _).bind fun _ => (blind_read _).bind fun _ => blind_setFrame _

theorem blind_trace : Blind scene (trace options q i ins : Replay F Unit) := by
  unfold trace
  split
  · split
    · exact blind_log options _
    · exact (blind_read _).bind fun _ => (blind_read _).bind fun _ => (blind_read _).bind fun _ =>
        blind_log options _
  · exact .pure _

theorem blind_reportSkipped : Blind scene (reportSkipped options i j : Replay F Unit) := by
  unfold reportSkipped
  split
  · exact blind_log options _
  · exact .pure _

theorem blind_checkClosed : Blind scene (checkClosed : Replay F Unit) :=
  blind_get_frame (fun s s' h => by simp only [h]) fun _ => .ok _

variable [Scalar F]

theorem blind_ask {operator : Operator F} {f : Frame F} {l : Nat} :
    Blind scene (ask options operator q f l) := by
  refine (blind_request _).bind fun _ => ?_
  split
  · exact .pure _
  · exact (blind_log options _).bind fun _ => .throw _
  · exact .throw _

theorem blind_marker {site : CallSite F} : Blind scene (marker options q site) := by
  refine blind_get_frame (fun s s' h => by simp only [h]) fun s => ?_
  cases s.frame with
  | none => exact (blind_read _).bind fun _ => (Blind.ok _).bind fun _ => blind_setFrame _
  | some f =>
    dsimp only
    split
    · exact (Blind.ok _).bind fun _ => (blind_setFrame none).bind fun _ =>
        (blind_read _).bind fun _ => (Blind.fold (fun _ _ => blind_ask) _ _ _).bind fun _ =>
          blind_update _
    · exact .throw _

variable {P : Program F} {mask : Array Bool} {resolved : Array Nat}

theorem blind_step : Blind scene (step P q resolved options i ins) := by
  unfold step
  split
  · exact .throw _
  · exact .throw _
  · exact (Blind.ok _).bind fun _ => blind_marker
  · exact (Blind.ok _).bind fun _ => (Blind.ok _).bind fun _ => blind_takeArg
  · exact (Blind.ok _).bind fun _ => blind_takeArg
  · exact (Blind.ok _).bind fun _ => (Blind.ok _).bind fun _ => blind_takeResult
  · exact blind_takeResult
  · exact blind_update _
  · split
    · exact blind_update _
    · exact .pure _

/-- Each step is blind, so by induction along the cursor the replay is. -/
theorem blind_replayFrom (i : Nat) : Blind scene (replayFrom P q mask resolved options i) := by
  induction i using replayFrom.induct P mask with
  | case1 i f hnext =>
    rw [replayFrom_of_error hnext]
    exact .throw _
  | case2 i j hnext ih =>
    rw [replayFrom_eq hnext]
    refine blind_reportSkipped.bind fun _ => (Blind.ok _).bind fun ins => ?_
    split
    · exact blind_checkClosed
    · exact blind_step.bind fun _ => blind_trace.bind fun _ => ih

end Scene

/-- After the open block is closed, what has been seen of the arena is all that is seen. -/
theorem blind_setFrame_bind {k : Unit → Replay F α} (hk : Blind ReplayState.scene (k ()))
    (f : Option (Frame F)) : Blind ReplayState.arena (setFrame f >>= k) := by
  intro s s' hs
  have hscene : ({ s with frame := f } : ReplayState F).scene =
      ({ s' with frame := f } : ReplayState F).scene := Prod.ext hs rfl
  obtain ⟨out, u, u', h, h', hu⟩ := hk _ _ hscene
  exact ⟨out, u, u', h, h', (congrArg Prod.fst hu :)⟩

variable [Scalar F] {P : Program F} {q : Nat} {mask : Array Bool} {resolved : Array Nat}
  {options : Options}

/-- A sweep of any program sees the arena alone. -/
theorem blind_sweep : Blind ReplayState.arena (sweep P q mask resolved options) := by
  refine .get (fun s s' h => by simp only [h]) fun s => ?_
  refine (Blind.ok _).bind fun _ => (Blind.ok _).bind fun _ =>
    (blind_report (fun _ _ => rfl) options _).bind fun _ => (Blind.ok _).bind fun _ => ?_
  exact blind_setFrame_bind ((Blind.ok _).bind blind_replayFrom) none

/-- A sweep of any program leaves an arena of the same shape, however it ends. -/
theorem ends_sweep (s : ReplayState F) : Ends (sweep P q mask resolved options) s
    (fun _ s' => Arena.SameShape s.arena s'.arena) fun s' => Arena.SameShape s.arena s'.arena := by
  have hrefl := Arena.SameShape.refl s.arena
  refine .get (.ok_bind hrefl fun _ _ => .ok_bind hrefl fun _ _ => .report fun events =>
    .ok_bind hrefl fun _ _ => ?_)
  refine Ends.bind (Q := fun _ s' => s' = { s with events, frame := none }) rfl ?_
  rintro _ s' rfl
  exact .ok_bind hrefl fun i _ => (ends_replayFrom i _).imp (fun _ _ h => h.toSameShape)
    fun _ h => h.toSameShape

end Replay

end JetTape
