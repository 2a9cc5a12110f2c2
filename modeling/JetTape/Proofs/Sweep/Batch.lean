import JetTape.Proofs.Batch
import JetTape.Proofs.Replay.Blind
import JetTape.Proofs.Sweep.Refusal
import JetTape.Tape.Sweep

/-!
Sweeps of many buffers. What a sweep does to a buffer depends on that buffer alone, so a batch of
buffers that are swept under any schedule agrees with the sweeps of its buffers one by one. The
sweeps of all orders are the sweeps of one order after the other, so it makes no difference whether
each buffer runs through all orders or all buffers through one order before the next.
-/
open Relation (ReflTransGen)

namespace JetTape

open Batch (Agrees Runs RunsInTurn Slot Step inTurn)
open Replay (Blind Ends)

variable {F : Type}

/-- Why a run over a buffer stopped, and the buffer that it leaves. -/
def Run.onto (run : Run F) (b : Buffer F) : Option Stop × Buffer F :=
  (run.stop, b.withCells run.cells)

namespace Replay

/-- What follows a replay that has come to its end runs as it would on the arena that is left. -/
theorem run_bind {m k : Replay F Unit} {b : Buffer F}
    (hm : Ends m { arena := b.arena } (fun _ s => s.arena.layout = b.layout)
      fun s => s.arena.layout = b.layout)
    (hk : Blind ReplayState.arena k) :
    ((do m; k : Replay F Unit).run b.arena).onto b =
      match (m.run b.arena).onto b with
      | (some stop, b') => (some stop, b')
      | (none, b') => (k.run b'.arena).onto b' := by
  unfold Ends at hm
  cases h : m { arena := b.arena } with
  | error stop s =>
    have hbind : (do m; k : Replay F Unit) { arena := b.arena } = .error stop s := bind_of_error h
    simp only [Run.onto, run, h, hbind]
  | ok u s =>
    rw [h] at hm
    have hbind : (do m; k : Replay F Unit) { arena := b.arena } = k s := bind_of_ok h
    have harena : (b.withCells s.arena.cells).arena = s.arena := by
      show (⟨b.layout, s.arena.cells⟩ : Arena F) = s.arena
      rw [← hm]
    obtain ⟨out, u, u', hleft, hright, hu⟩ := hk s { arena := s.arena } rfl
    simp only [Run.onto, run, h, hbind, harena, hleft, hright]
    cases out <;> simp only [ending, hu] <;> rfl

end Replay

namespace Tape

variable [Scalar F]

/-- What a sweep of order `q` does to a buffer. -/
def sweepOnto (t : Tape F) (mask : Array Bool) (resolved : Array Nat) (options : Options) (q : Nat)
    (b : Buffer F) : Option Stop × Buffer F :=
  (t.sweep q b mask resolved options).onto b

/-- What the sweeps of the orders from 1 to `q` do to a buffer. -/
def sweepOrdersOnto (t : Tape F) (mask : Array Bool) (resolved : Array Nat) (options : Options)
    (q : Nat) (b : Buffer F) : Option Stop × Buffer F :=
  (t.sweepOrders q b mask resolved options).onto b

variable (t : Tape F) (mask : Array Bool) (resolved : Array Nat) (options : Options)

theorem blind_replay (rows q : Nat) :
    Blind ReplayState.arena (t.replay rows q mask resolved options) :=
  (Blind.ok _).bind fun _ => (Blind.ok _).bind fun _ => Replay.blind_sweep

theorem ends_replay (rows q : Nat) (s : ReplayState F) :
    Ends (t.replay rows q mask resolved options) s (fun _ s' => s'.arena.layout = s.arena.layout)
      fun s' => s'.arena.layout = s.arena.layout :=
  .ok_bind rfl fun _ _ => .ok_bind rfl fun _ _ =>
    (Replay.ends_sweep s).imp (fun _ _ h => h.layout) fun _ h => h.layout

/-- The sweeps of several orders do to a buffer what the sweeps of one order after the other do, up
to the first that stops early. By induction on the orders: what the first sweep has requested and
reported makes no difference to the others. -/
theorem runOrders_onto (n i : Nat) (b : Buffer F) :
    ((Loop.each n i fun q => t.replay b.rows q mask resolved options).run b.arena).onto b =
      inTurn (t.sweepOnto mask resolved options) n i b := by
  induction n generalizing i b with
  | zero => rfl
  | succ n ih =>
    have hrest : Blind ReplayState.arena
        (Loop.each n (i + 1) fun q => t.replay b.rows q mask resolved options) :=
      .each (fun q => t.blind_replay mask resolved options b.rows q) n (i + 1)
    have hbind := Replay.run_bind (b := b) (t.ends_replay mask resolved options b.rows i _) hrest
    rw [Loop.each, hbind, inTurn]
    show (match t.sweepOnto mask resolved options i b with
      | (some stop, b') => (some stop, b')
      | (none, b') => Run.onto _ b') = _
    have hrows : (t.sweepOnto mask resolved options i b).2.rows = b.rows := rfl
    generalize t.sweepOnto mask resolved options i b = worked at hrows ⊢
    obtain ⟨_ | stop, b'⟩ := worked
    · rw [← hrows]
      exact ih (i + 1) b'
    · rfl

theorem sweepOrdersOnto_eq {q : Nat} {b : Buffer F} (hq : q < b.layout.capOrder) :
    t.sweepOrdersOnto mask resolved options q b =
      inTurn (t.sweepOnto mask resolved options) q 1 b := by
  rw [← runOrders_onto]
  have hrequire : t.replayOrders b q mask resolved options =
      Loop.each q 1 fun q => t.replay b.rows q mask resolved options := by
    simp only [replayOrders, require, if_pos hq]
    rfl
  rw [sweepOrdersOnto, sweepOrders, hrequire]

omit [Scalar F] in
theorem sweepEach_stopped {sweep : Buffer F → Run F} {b : Buffer F} {stop : Stop}
    (h : (sweep b).stop = some stop) (rest : List (Buffer F)) :
    sweepEach sweep (b :: rest) = (some stop, b.withCells (sweep b).cells :: rest) := by
  simp only [sweepEach, h]

omit [Scalar F] in
theorem sweepEach_went_on {sweep : Buffer F → Run F} {b : Buffer F} (h : (sweep b).stop = none)
    (rest : List (Buffer F)) :
    sweepEach sweep (b :: rest) =
      ((sweepEach sweep rest).1, b.withCells (sweep b).cells :: (sweepEach sweep rest).2) := by
  simp only [sweepEach, h]

omit [Scalar F] in
/-- Sweeps of the buffers in turn, up to the first that stops early, are one of the schedules. -/
theorem sweepEach_runs (sweep : Buffer F → Run F) (bs : List (Buffer F)) :
    Runs (fun b => (sweep b).onto b) bs (sweepEach sweep bs).1 (sweepEach sweep bs).2 := by
  induction bs with
  | nil => exact ⟨[], .refl, ⟨nofun, nofun, nofun⟩, rfl⟩
  | cons b rest ih =>
    have hfirst : ReflTransGen (Step fun b => (sweep b).onto b) ((b :: rest).map .waiting)
        (.done (b.withCells (sweep b).cells) (sweep b).stop :: rest.map .waiting) :=
      .tail (.single (.take b _)) (.giveBack b _)
    cases hstop : (sweep b).stop with
    | some stop =>
      rw [hstop] at hfirst
      rw [sweepEach_stopped hstop]
      refine ⟨_, hfirst, ⟨fun x hx => by simp at hx, nofun, ?_⟩, ?_⟩
      · intro e he
        cases he
        exact ⟨_, List.mem_cons_self⟩
      · simp [Slot.item, Function.comp_def]
    | none =>
      obtain ⟨slots, hreach, hover, hitems⟩ := ih
      rw [hstop] at hfirst
      rw [sweepEach_went_on hstop]
      have hrest : ReflTransGen (Step fun b => (sweep b).onto b)
          (.done (b.withCells (sweep b).cells) none :: rest.map .waiting)
          (.done (b.withCells (sweep b).cells) none :: slots) :=
        hreach.lift _ fun _ _ h => Step.behind _ h
      refine ⟨_, hfirst.trans hrest, ⟨fun x hx => ?_, fun hnone => ?_, fun e he => ?_⟩, ?_⟩
      · rcases List.mem_cons.mp hx with hx | hx
        · cases hx
        · exact hover.idle x hx
      · exact List.forall_mem_cons.mpr ⟨⟨_, rfl⟩, hover.ok hnone⟩
      · obtain ⟨x, hx⟩ := hover.failed e he
        exact ⟨x, List.mem_cons_of_mem _ hx⟩
      · rw [List.map_cons, hitems]
        rfl

/-- Whatever the schedule, a batch of sweeps agrees with the sweeps of its buffers one by one, both
for one order and for all orders up to one. It comes out well if and only if all of them come to
their end, and then every buffer is as its own sweep leaves it; otherwise the result is why one of
them stops, and every buffer is as it was or as its own sweep leaves it. Batches for one order after
the other come out well if and only if the batch for all of them does, and then they leave the same
buffers. -/
theorem sweeps_under_schedules (bs : List (Buffer F)) (q : Nat) :
    (∀ result bs', Runs (t.sweepOnto mask resolved options q) bs result bs' →
      Agrees (t.sweepOnto mask resolved options q) bs result bs') ∧
    (∀ result bs', Runs (t.sweepOrdersOnto mask resolved options q) bs result bs' →
      Agrees (t.sweepOrdersOnto mask resolved options q) bs result bs' ∧
        ((∀ b ∈ bs, q < b.layout.capOrder) → ∀ result' bs'',
          RunsInTurn (t.sweepOnto mask resolved options) q 1 bs result' bs'' →
          (result = none ↔ result' = none) ∧ (result = none → bs' = bs''))) := by
  refine ⟨fun _ _ h => h.agrees, fun _ _ h => ⟨h.agrees, fun hq _ _ h' => ?_⟩⟩
  exact h.iff_inTurn (fun b hb => t.sweepOrdersOnto_eq mask resolved options (hq b hb)) h'

/-- A buffer for the guarded tape that both of its operators accept. -/
def allowedBuffer : Buffer ℚ :=
  ⟨⟨⟨4, 2⟩, Array.replicate 42 1⟩, 6⟩

/-- A batch with a buffer that is refused between two that are not ends with the refusal at order 2,
though not at order 1. Without that buffer the batch for all orders and the batches for one order
after the other leave the same. -/
theorem guardedTape_sweeps_under_schedules :
    let order := guardedTape.sweepOnto guardedTape.noSkip #[] {}
    let orders := guardedTape.sweepOrdersOnto guardedTape.noSkip #[] {} 3
    let mixed := [allowedBuffer, forbiddenBuffer, allowedBuffer]
    let allowed := [allowedBuffer, allowedBuffer]
    (∃ bs', Runs (order 1) mixed none bs' ∧ Agrees (order 1) mixed none bs') ∧
      (∃ bs', Runs orders mixed (some (.refused "picky" 2 1)) bs' ∧
        Agrees orders mixed (some (.refused "picky" 2 1)) bs') ∧
      ∃ bs' bs'', Runs orders allowed none bs' ∧ RunsInTurn order 3 1 allowed none bs'' ∧
        bs' = bs'' := by
  intro order orders mixed allowed
  have hserial (sweep : Buffer ℚ → Run ℚ) (bs : List (Buffer ℚ)) (result : Option Stop)
      (hresult : (sweepEach sweep bs).1 = result) :
      Runs (fun b => (sweep b).onto b) bs result (sweepEach sweep bs).2 :=
    hresult ▸ sweepEach_runs sweep bs
  let sweep (q : Nat) (b : Buffer ℚ) := guardedTape.sweep q b guardedTape.noSkip #[] {}
  let sweeps (b : Buffer ℚ) := guardedTape.sweepOrders 3 b guardedTape.noSkip #[] {}
  have hfirst : Runs (order 1) mixed none _ := hserial (sweep 1) mixed none (by decide +kernel)
  have hmixed : Runs orders mixed (some (.refused "picky" 2 1)) _ :=
    hserial sweeps mixed _ (by decide +kernel)
  have hallowed : Runs orders allowed none _ := hserial sweeps allowed none (by decide +kernel)
  let afterOne := (sweepEach (sweep 1) allowed).2
  let afterTwo := (sweepEach (sweep 2) afterOne).2
  have hinTurn : RunsInTurn order 3 1 allowed none _ :=
    .next (hserial (sweep 1) allowed none (by decide +kernel))
      (.next (hserial (sweep 2) afterOne none (by decide +kernel))
        (.next (hserial (sweep 3) afterTwo none (by decide +kernel)) (.done 4 _)))
  have hagree := sweeps_under_schedules guardedTape guardedTape.noSkip #[] {}
  have hroom : ∀ b ∈ allowed, 3 < b.layout.capOrder := by decide
  exact ⟨⟨_, hfirst, (hagree mixed 1).1 _ _ hfirst⟩,
    ⟨_, hmixed, ((hagree mixed 3).2 _ _ hmixed).1⟩,
    _, _, hallowed, hinTurn, (((hagree allowed 3).2 _ _ hallowed).2 hroom _ _ hinTurn).2 rfl⟩

end Tape

end JetTape
