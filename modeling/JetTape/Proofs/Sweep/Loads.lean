import JetTape.Proofs.Replay.Writes
import JetTape.Proofs.Sweep.Orders

/-!
Loads of a sweep that comes to its end. When a replay comes to a load it checks that the load stands
for an earlier row. So a sweep that skips nothing comes to its end only if all loads do.
-/
namespace JetTape

variable {F : Type}

/-- What an update does after a computation without the arena. -/
theorem Arena.of_ok_bind {α β : Type} {m : Except Fault α} {k : α → Update F β} {a b : Arena F}
    {y : β} (h : (liftM m >>= k) a = .ok y b) : ∃ x, m = .ok x ∧ k x a = .ok y b := by
  cases m with
  | error f => cases h
  | ok x => exact ⟨x, rfl, h⟩

variable [Scalar F]

theorem Recurrence.loadedRow_lt {q z : Nat} {args : List Nat} {resolved : Array Nat}
    {a b : Arena F} (h : load q z args resolved a = .ok () b) :
    Jet.loadedRow args resolved < z := by
  obtain ⟨slot, hslot, h⟩ := Arena.of_ok_bind h
  obtain ⟨_, -, h⟩ := Arena.of_ok_bind h
  obtain ⟨y, hy, h⟩ := Arena.of_ok_bind h
  obtain ⟨_, hlt, -⟩ := Arena.of_ok_bind h
  have hloaded : Jet.loadedRow args resolved = y := by
    rw [Jet.loadedRow, List.getD_eq_getElem?_getD, Index.arg_eq_ok_iff.mp hslot,
      Option.getD_some, Array.getD_eq_getD_getElem?, Index.get_eq_ok_iff.mp hy, Option.getD_some]
  rw [hloaded]
  exact require_eq_ok_iff.mp hlt

namespace Replay

omit [Scalar F] in
theorem of_ok_bind {α β : Type} {m : Except Fault α} {k : α → Replay F β} {s s' : ReplayState F}
    {y : β} (h : (liftM m >>= k) s = .ok y s') : ∃ x, m = .ok x ∧ k x s = .ok y s' := by
  cases m with
  | error f => cases h
  | ok x => exact ⟨x, rfl, h⟩

omit [Scalar F] in
/-- A run that has not stopped early is that of a replay that comes to its end. -/
theorem exists_of_run {m : Replay F Unit} {a : Arena F} (h : (m.run a).stop = none) :
    ∃ s, m { arena := a } = .ok () s := by
  unfold run at h
  split at h
  · exact ⟨_, ‹_›⟩
  · cases h

variable {P : Program F} {q : Nat} {mask : Array Bool} {resolved : Array Nat} {options : Options}

theorem loadedRow_lt_of_stepAt {i : Nat} {ins : Instr} {source : Source}
    (hop : ins.op = .load source) {s s' : ReplayState F}
    (h : stepAt P q resolved options i ins s = .ok () s') :
    Jet.loadedRow ins.args resolved < ins.row := by
  obtain ⟨op, args, z⟩ := ins
  subst hop
  cases hstep : step P q resolved options i ⟨.load source, args, z⟩ s with
  | error stop s₁ =>
    rw [stepAt, bind_of_error hstep] at h
    cases h
  | ok _ s₁ =>
    have hupdate : Replay.update (Recurrence.load q z args resolved) s = .ok () s₁ := hstep
    unfold Replay.update at hupdate
    cases hload : Recurrence.load q z args resolved s.arena with
    | ok _ _ => exact Recurrence.loadedRow_lt hload
    | error f a =>
      simp only [hload] at hupdate
      cases hupdate

/-- A replay that comes to its end has been at every load that it did not pass over. -/
theorem loadedRow_lt_of_replayFrom {i j : Nat} {s s' : ReplayState F} {ins : Instr}
    {source : Source} (h : replayFrom P q mask resolved options i s = .ok () s') (hij : i ≤ j)
    (hins : P.instr j = .ok ins) (hop : ins.op = .load source)
    (hmask : ∀ k, mask.getD k false = false)
    (hbefore : ∀ k, i ≤ k → k < j → ∀ ins, P.instr k = .ok ins → ins.op ≠ .stop) :
    Jet.loadedRow ins.args resolved < ins.row := by
  induction i, s using replay_induct mask with
  | h i s ih =>
    have hpassage := passage P q mask resolved options i s
    generalize stationsFrom P q mask resolved options i s = list at hpassage
    generalize hout : replayFrom P q mask resolved options i s = out at hpassage h
    -- Nothing is passed over.
    have hhere {k : Nat} {events : Array (Event F)} (hstands : Stands P mask options i s k events) :
        k = i := by
      have hlt := Cursor.lt_size_of_next hstands.next
      have hle := hstands.le
      have hunmarked : mask[i]? = some false := by
        rw [Array.getElem?_eq_getElem (by omega), ← hmask i]
        simp [show i < mask.size by omega]
      exact Except.ok.inj (hstands.next.symm.trans (Cursor.next_of_unmarked hunmarked))
    cases hpassage with
    | lost | unread | halts => cases h
    | stops hstands hins' hstop =>
      rw [hhere hstands] at hins'
      rcases Nat.lt_or_eq_of_le hij with hlt | rfl
      · exact absurd hstop (hbefore i (Nat.le_refl i) hlt _ hins')
      · cases hins.symm.trans hins'
        rw [hop] at hstop
        cases hstop
    | goesOn hstands hins' hne hstep =>
      have hsize := Cursor.lt_size_of_next hstands.next
      obtain rfl := hhere hstands
      rcases Nat.lt_or_eq_of_le hij with hlt | rfl
      · exact ih _ _ (Nat.le_refl _) hsize h hlt
          fun k hk => hbefore k (by omega)
      · cases hins.symm.trans hins'
        exact loadedRow_lt_of_stepAt hop hstep

end Replay

namespace Tape

variable {t : Tape F} {items : List Item} {tail : List Instr} {b : Buffer F} {q : Nat}
variable {resolved : Array Nat}

omit [Scalar F] in
/-- The loads of a tape are those among its items. -/
theorem Spells.loadsOk_iff (h : t.Spells items tail) (hc : t.Countable) :
    t.LoadsOk resolved ↔ ∀ ins ∈ instrsOf items, ∀ s, ins.op = .load s →
      Jet.loadedRow ins.args resolved < ins.row := by
  constructor
  · intro hloads ins hins
    obtain ⟨i, hi⟩ := h.exists_instr hc hins
    exact hloads i ins hi
  · intro hloads i ins hi s hop
    rcases h.place_of_instr hc hi with ⟨-, -, hhead⟩ | ⟨c, rfl, hget⟩ | hstop
    · rcases hhead with hhead | hhead <;>
        · rw [hhead] at hop
          cases hop
    · exact hloads ins (List.mem_of_getElem? hget) s hop
    · rw [hstop] at hop
      cases hop

/-- A replay of a tape that comes to its end has found the tape stopped. -/
theorem isStopped_of_replay {rows : Nat} {mask : Array Bool} {options : Options}
    {s s' : ReplayState F} (h : t.replay rows q mask resolved options s = .ok () s') :
    t.isStopped = true := by
  obtain ⟨_, hstop, -⟩ := Replay.of_ok_bind h
  exact require_eq_ok_iff.mp hstop

/-- A replay without skipping that comes to its end has found every load right. -/
theorem Spells.loadsOk_of_replay (h : t.Spells items tail) (hc : t.Countable) {rows : Nat}
    {options : Options} {a : Arena F} {s' : ReplayState F}
    (hreplay : t.replay rows q t.noSkip resolved options { arena := a } = .ok () s') :
    t.LoadsOk resolved := by
  obtain ⟨_, -, hreplay⟩ := Replay.of_ok_bind hreplay
  obtain ⟨_, -, hsweep⟩ := Replay.of_ok_bind hreplay
  rw [Replay.sweep_eq] at hsweep
  have hhead := Replay.ends_sweepHead t.program q t.noSkip resolved options a
  unfold Replay.Ends at hhead
  cases hstart : Replay.sweepHead t.program q t.noSkip resolved options { arena := a } with
  | error stop s =>
    rw [Replay.bind_of_error hstart] at hsweep
    cases hsweep
  | ok start s =>
    rw [hstart] at hhead
    obtain ⟨-, rfl, -⟩ := hhead
    rw [Replay.bind_of_ok hstart] at hsweep
    have hholds := (Program.holds_append.mp (Program.holds_append.mp (h.program_holds hc)).1).2
    rw [length_headInstrs, Nat.zero_add] at hholds
    rw [h.loadsOk_iff hc]
    intro ins hins source hop
    obtain ⟨c, hlt, rfl⟩ := List.getElem_of_mem hins
    refine Replay.loadedRow_lt_of_replayFrom hsweep (Nat.le_add_right _ c) (hholds c hlt) hop
      (marks_noSkip t q resolved) ?_
    intro k hle hk ins' hins'
    obtain ⟨d, rfl⟩ := Nat.exists_eq_add_of_le hle
    have hd : d < (instrsOf items).length := (Nat.lt_of_add_lt_add_left hk).trans hlt
    cases hins'.symm.trans (hholds d hd)
    exact (h.valid.op_ne _ (List.getElem_mem hd)).2.2

/-- A sweep without skipping that comes to its end has found every load right. -/
theorem Spells.loadsOk_of_sweep (h : t.Spells items tail) (hc : t.Countable) {options : Options}
    (hnone : (t.sweep q b t.noSkip resolved options).stop = none) : t.LoadsOk resolved := by
  obtain ⟨s', hreplay⟩ := Replay.exists_of_run hnone
  exact h.loadsOk_of_replay hc hreplay

end Tape

end JetTape
