import JetTape.Proofs.Arena.Along
import JetTape.Replay.Sweep

/-!
How a replay goes. The core of a state is all of it but the reported events, which nothing looks
at. `Leads m c out c'` says that from every state with core `c` the replay `m` ends with the result
or the stop `out`, in a state with core `c'`. There is a rule for each way to build a replay.
-/
namespace JetTape

variable {F : Type}

/-- A replay state without its events. -/
structure Core (F : Type) where
  arena : Arena F
  frame : Option (Call.Frame F)
  requests : Array (Request F)

def ReplayState.core (s : ReplayState F) : Core F := ⟨s.arena, s.frame, s.requests⟩

namespace Replay

/-- The end of a replay in a state. -/
def ending {α : Type} (out : Except Stop α) (s : ReplayState F) :
    EStateM.Result Stop (ReplayState F) α :=
  match out with
  | .ok x => .ok x s
  | .error stop => .error stop s

def Leads {α : Type} (m : Replay F α) (c : Core F) (out : Except Stop α) (c' : Core F) : Prop :=
  ∀ s : ReplayState F, s.core = c → ∃ s', m s = ending out s' ∧ s'.core = c'

variable {α β : Type} {c c' c'' : Core F} {out : Except Stop α}

theorem Leads.bind {m : Replay F β} {k : β → Replay F α} {x : β} (hm : Leads m c (.ok x) c')
    (hk : Leads (k x) c' out c'') : Leads (m >>= k) c out c'' := by
  intro s hs
  obtain ⟨s', hm, hs'⟩ := hm s hs
  obtain ⟨s'', hk, hs''⟩ := hk s' hs'
  refine ⟨s'', ?_, hs''⟩
  show EStateM.bind m k s = _
  simp only [EStateM.bind, hm, ending]
  exact hk

theorem Leads.bind_error {m : Replay F β} {k : β → Replay F α} {stop : Stop}
    (hm : Leads m c (.error stop) c') : Leads (m >>= k) c (.error stop) c' := by
  intro s hs
  obtain ⟨s', hm, hs'⟩ := hm s hs
  refine ⟨s', ?_, hs'⟩
  show EStateM.bind m k s = _
  simp only [EStateM.bind, hm, ending]

/-- A replay may look at the state; it sees the core and some events. -/
theorem Leads.get {k : ReplayState F → Replay F α}
    (h : ∀ s : ReplayState F, s.core = c → Leads (k s) c out c') : Leads (get >>= k) c out c' :=
  fun s hs => h s hs s hs

theorem leads_pure (x : α) : Leads (pure x : Replay F α) c (.ok x) c :=
  fun s hs => ⟨s, rfl, hs⟩

theorem leads_throw (stop : Stop) : Leads (throw stop : Replay F α) c (.error stop) c :=
  fun s hs => ⟨s, rfl, hs⟩

/-- A computation without the arena that has come out well. -/
theorem leads_ok {m : Except Fault α} {x : α} (h : m = .ok x) :
    Leads (liftM m : Replay F α) c (.ok x) c := by
  subst h
  exact fun s hs => ⟨s, rfl, hs⟩

theorem leads_fault {m : Except Fault α} {f : Fault} (h : m = .error f) :
    Leads (liftM m : Replay F α) c (.error (.fault f)) c := by
  subst h
  exact fun s hs => ⟨s, rfl, hs⟩

theorem leads_require {p : Prop} [Decidable p] {f : Fault} (h : p) :
    Leads (liftM (require p f) : Replay F Unit) c (.ok ()) c :=
  leads_ok (require_eq_ok_iff.mpr h)

variable {a b : Arena F} {frame frame' : Option (Call.Frame F)} {requests : Array (Request F)}

theorem leads_read {m : Arena.Read F α} {x : α} (h : m a = .ok x) :
    Leads (liftM m : Replay F α) ⟨a, frame, requests⟩ (.ok x) ⟨a, frame, requests⟩ := by
  rintro ⟨a', frame', requests', events⟩ hs
  cases hs
  refine ⟨⟨_, _, _, events⟩, ?_, rfl⟩
  show Replay.update (liftM m) _ = _
  simp only [Replay.update, Arena.lift_of_eq h]
  rfl

theorem leads_read_error {m : Arena.Read F α} {f : Fault} (h : m a = .error f) :
    Leads (liftM m : Replay F α) ⟨a, frame, requests⟩ (.error (.fault f))
      ⟨a, frame, requests⟩ := by
  rintro ⟨a', frame', requests', events⟩ hs
  cases hs
  refine ⟨⟨_, _, _, events⟩, ?_, rfl⟩
  show Replay.update (liftM m) _ = _
  simp only [Replay.update, liftM, monadLift, MonadLift.monadLift, h]
  rfl

theorem leads_update {m : Arena.Update F α} {x : α} (h : m a = .ok x b) :
    Leads (liftM m : Replay F α) ⟨a, frame, requests⟩ (.ok x) ⟨b, frame, requests⟩ := by
  rintro ⟨a', frame', requests', events⟩ hs
  cases hs
  refine ⟨⟨_, _, _, events⟩, ?_, rfl⟩
  show Replay.update m _ = _
  simp only [Replay.update, h]
  rfl

theorem leads_update_error {m : Arena.Update F α} {f : Fault} (h : m a = .error f b) :
    Leads (liftM m : Replay F α) ⟨a, frame, requests⟩ (.error (.fault f)) ⟨b, frame, requests⟩ := by
  rintro ⟨a', frame', requests', events⟩ hs
  cases hs
  refine ⟨⟨_, _, _, events⟩, ?_, rfl⟩
  show Replay.update m _ = _
  simp only [Replay.update, h]
  rfl

theorem leads_setFrame :
    Leads (setFrame frame') ⟨a, frame, requests⟩ (.ok ()) ⟨a, frame', requests⟩ := by
  rintro ⟨a', frame'', requests', events⟩ hs
  cases hs
  exact ⟨⟨_, _, _, events⟩, rfl, rfl⟩

theorem leads_request (r : Request F) :
    Leads (request r) ⟨a, frame, requests⟩ (.ok ()) ⟨a, frame, requests.push r⟩ := by
  rintro ⟨a', frame', requests', events⟩ hs
  cases hs
  exact ⟨⟨_, _, _, events⟩, rfl, rfl⟩

/-- Reports do not change the core. -/
theorem leads_report (options : Options) (e : Event F) : Leads (report options e) c (.ok ()) c := by
  intro s hs
  unfold report
  split
  · exact ⟨{ s with events := s.events.push e }, rfl, hs⟩
  · exact ⟨s, rfl, hs⟩

theorem leads_reportSkipped (options : Options) (i j : Nat) :
    Leads (reportSkipped options i j : Replay F Unit) c (.ok ()) c := by
  unfold reportSkipped
  split
  · exact leads_report options _
  · exact leads_pure ()

end Replay

end JetTape
