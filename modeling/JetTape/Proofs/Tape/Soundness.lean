import JetTape.Proofs.Tape.Faults
import JetTape.Proofs.Tape.Roles
import JetTape.Proofs.Tape.Spelling

/-!
Tapes on which steps have ended in faults. A call that ends in a fault leaves its first instructions
without the rest, so there need not be whole blocks. Still each instruction is sound where it
stands, and recording goes on after it as after any other.
-/
namespace JetTape

variable {F : Type}

/-- An instruction as it is recorded after `n` rows, `p` parameters, `m` loads and `k` operators, be
it outside calls, in a call, or in what is left of a call. -/
inductive Instr.Sound (n p m k : Nat) : Opcode → List Nat → Prop where
  | plain {op : Opcode} {args : List Nat} (h : Instr.Valid n p m op args) : Sound n p m k op args
  | callMarker {handle : Nat} (callId args results : Nat) (hhandle : handle < k) :
    Sound n p m k .callMarker [handle, callId, args, results]
  | callArg {a : Operand} (ha : a.Valid n p) : Sound n p m k (.callArg a.source) [a.index]
  | varResult : Sound n p m k (.callResult .var) []
  | parResult {i : Nat} (hi : i < p) : Sound n p m k (.callResult .par) [i]

namespace Instr.Sound

variable {n p m k p' m' k' : Nat} {op : Opcode} {args : List Nat}

theorem mono (h : Instr.Sound n p m k op args) (hp : p ≤ p') (hm : m ≤ m') (hk : k ≤ k') :
    Instr.Sound n p' m' k' op args := by
  cases h with
  | plain h => exact .plain (h.mono hp hm)
  | callMarker callId args results hhandle =>
    exact .callMarker callId args results (Nat.lt_of_lt_of_le hhandle hk)
  | callArg ha => exact .callArg (ha.mono (Nat.le_refl n) hp)
  | varResult => exact .varResult
  | parResult hi => exact .parResult (Nat.lt_of_lt_of_le hi hp)

theorem op_ne (h : Instr.Sound n p m k op args) :
    op ≠ .start ∧ op ≠ .independent ∧ op ≠ .stop := by
  cases h with
  | plain h =>
    have hplain := h.isPlain
    refine ⟨?_, ?_, ?_⟩ <;> intro hop <;> rw [hop] at hplain <;> cases hplain
  | _ => exact ⟨nofun, nofun, nofun⟩

theorem length_args (h : Instr.Sound n p m k op args) {c : Nat} (hc : op.argCount? = some c) :
    args.length = c := by
  cases h with
  | plain h => exact h.length_args hc
  | _ => exact Option.some.inj hc

theorem roles (h : Instr.Sound n p m k op args) (hargs : args.length < Index.argBound) :
    List.Forall₂ (Role.Valid n p m k) (op.roles args) args := by
  cases h with
  | plain h => exact h.roles hargs
  | callMarker callId args results hhandle =>
    exact .cons hhandle (.cons trivial (.cons trivial (.cons trivial .nil)))
  | callArg ha => exact .cons ha.role .nil
  | varResult => exact .nil
  | parResult hi => exact .cons hi .nil

end Instr.Sound

/-- Sound instructions one after another, after `n` rows. -/
def SoundInstrs (p m k n : Nat) (l : List Instr) : Prop :=
  EachFrom (fun n ins => Instr.Sound n p m k ins.op ins.args) n l

theorem SoundInstrs.mono {p m k p' m' k' n : Nat} {l : List Instr} (h : SoundInstrs p m k n l)
    (hp : p ≤ p') (hm : m ≤ m') (hk : k ≤ k') : SoundInstrs p' m' k' n l :=
  h.imp fun _ _ _ h => h.mono hp hm hk

theorem ValidItems.sound {p m k n : Nat} {l : List Instr} (h : ValidItems p m k n (l.map .plain)) :
    SoundInstrs p m k n l := by
  induction l generalizing n with
  | nil => trivial
  | cons ins l ih =>
    obtain ⟨hins, hrest⟩ := h
    refine ⟨.plain hins.1, ih ?_⟩
    simpa [Item.instrs] using hrest

namespace Tape

/-- The tape `t'` is `t` with sound instructions appended. -/
def Grows (t t' : Tape F) : Prop :=
  ∃ l, t.Extends t' l ∧
    (0 < t.rows → SoundInstrs t'.params.size t'.loads t'.registry.size t.rows l)

variable {t t' t'' : Tape F}

theorem Extends.grows (h : t.Extends t' []) : t.Grows t' := ⟨[], h, fun _ => trivial⟩

theorem Grows.refl (t : Tape F) : t.Grows t := (Extends.refl t).grows

theorem Grows.trans (h : t.Grows t') (h' : t'.Grows t'') : t.Grows t'' := by
  obtain ⟨l, hl, hsound⟩ := h
  obtain ⟨l', hl', hsound'⟩ := h'
  refine ⟨l ++ l', hl.trans hl', fun hpos => ?_⟩
  have hrows := hl.rows
  rw [SoundInstrs, eachFrom_append, ← hrows]
  exact ⟨(hsound hpos).mono hl'.params hl'.loads hl'.registry, hsound' (by omega)⟩

theorem GainsPlain.grows (h : t.GainsPlain t') : t.Grows t' := by
  obtain ⟨l, hl⟩ := h
  exact ⟨l, instrsOf_map_plain l ▸ hl.extends_, fun hpos => (hl.valid hpos).sound⟩

end Tape

namespace Recorder

variable {α β : Type} {m : Recorder F α} {k : α → Recorder F β} {t : Tape F}

theorem grows_bind (hm : t.Grows (left m t))
    (hk : ∀ a s, m t = .ok a s → t.Grows s → s.Grows (left (k a) s)) :
    t.Grows (left (m >>= k) t) :=
  left_bind (fun _ _ _ h h' => h.trans h') hm hk

theorem grows_get {k : Tape F → Recorder F β} (h : t.Grows (left (k t) t)) :
    t.Grows (left (get >>= k) t) := h

theorem Quiet.grows (hm : Quiet m) : t.Grows (left m t) := (hm t).grows

/-- After a check that comes out well the rest runs on the same tape. -/
theorem Checks.grows_bind {m : Recorder F Unit} {k : Unit → Recorder F β} {p : Tape F → Prop}
    (hm : Checks m p) (hquiet : Quiet m) (hk : p t → t.Grows (left (k ()) t)) :
    t.Grows (left (m >>= k) t) := by
  refine Recorder.grows_bind hquiet.grows fun u s hs _ => ?_
  obtain ⟨hp, rfl⟩ := hm t u s hs
  exact hk hp

theorem grows_append {op : Opcode} {args : List Nat}
    (h : Instr.Sound t.rows t.params.size t.loads t.registry.size op args) :
    t.Grows (left (append op args) t) := by
  cases hrun : append op args t with
  | ok row t' =>
    have hextends := ok_of_append hrun
    rw [left_of_ok hrun]
    exact ⟨_, hextends, fun _ =>
      ⟨h.mono hextends.params hextends.loads hextends.registry, trivial⟩⟩
  | error f t' =>
    rw [left_of_error hrun]
    exact (clean_append op args t f t' hrun).grows

theorem grows_callArg (a : Operand) : t.Grows (left (callArg a) t) :=
  checks_operand.grows_bind (quiet_operand a) fun ha =>
    grows_bind (grows_append (.callArg ha)) fun _ s _ _ => .refl s

theorem grows_callResult (r : CallResult F) : t.Grows (left (callResult r) t) := by
  cases r with
  | var => exact grows_bind (grows_append .varResult) fun _ s _ _ => .refl s
  | constant value =>
    refine grows_bind (quiet_parameter value).grows fun i s hs _ => ?_
    exact grows_bind (grows_append (.parResult (ok_of_parameter hs).2)) fun _ s _ _ => .refl s

theorem grows_forM {step : α → Recorder F Unit} (h : ∀ a (t : Tape F), t.Grows (left (step a) t))
    (l : List α) (t : Tape F) : t.Grows (left (l.forM step) t) := by
  induction l generalizing t with
  | nil => exact .refl t
  | cons a l ih => exact grows_bind (h a t) fun _ s _ _ => ih s

theorem grows_mapM {step : α → Recorder F β} (h : ∀ a (t : Tape F), t.Grows (left (step a) t))
    (l : List α) (t : Tape F) : t.Grows (left (l.mapM step) t) := by
  induction l generalizing t with
  | nil => exact .refl t
  | cons a l ih =>
    rw [List.mapM_cons]
    exact grows_bind (h a t) fun _ s _ _ => grows_bind (ih s) fun _ s _ _ => .refl s

/-- Whether it comes out well or not, a call leaves sound instructions. -/
theorem grows_call (handle callId : Nat) (args : List Operand) (results : List (CallResult F)) :
    t.Grows (left (call handle callId args results) t) := by
  refine grows_get (checks_require.grows_bind (quiet_lift _) fun hhandle =>
    checks_require.grows_bind (quiet_lift _) fun _ => ?_)
  have hmarker {s : Tape F} (hs : t.Grows s) : s.Grows (left (append .callMarker
      [handle, callId, Index.toArg args.length, Index.toArg results.length]) s) := by
    obtain ⟨l, hl, -⟩ := hs
    exact grows_append (.callMarker _ _ _ (Nat.lt_of_lt_of_le hhandle hl.registry))
  refine grows_bind (hmarker (.refl t)) fun _ t₁ _ h₁ => ?_
  refine grows_bind (grows_forM (fun a _ => grows_callArg a) args t₁) fun _ t₂ _ h₂ => ?_
  refine grows_bind (grows_mapM (fun r _ => grows_callResult r) results t₂) fun _ t₃ _ h₃ => ?_
  exact grows_bind (hmarker ((h₁.trans h₂).trans h₃)) fun _ s _ _ => .refl s

/-- A step that declares no independents and does not finish the tape leaves sound instructions. -/
theorem grows_record [Scalar F] (action : Action F) (hindependents : ∀ n, action ≠ .independents n)
    (hfinish : action ≠ .finish) : t.Grows (left action.record t) := by
  by_cases hcall : ∃ handle callId args results, action = .call handle callId args results
  · obtain ⟨handle, callId, args, results, rfl⟩ := hcall
    exact grows_bind (grows_call handle callId args results) fun _ s _ _ => .refl s
  · simp only [not_exists] at hcall
    cases hrun : action.record t with
    | ok u t' =>
      rw [left_of_ok hrun]
      exact (gains_record hrun hindependents hcall hfinish).grows
    | error f t' =>
      rw [left_of_error hrun]
      exact (clean_record action hindependents hcall t f t' hrun).grows

end Recorder

namespace Tape

/-- The tape holds its head, the sound instructions of `body`, and `tail`, which is empty or a
`stop`. -/
structure Contains (t : Tape F) (body tail : List Instr) : Prop where
  lists : t.Lists (headInstrs t.independents ++ body ++ tail)
  sound : SoundInstrs t.params.size t.loads t.registry.size (1 + t.independents) body
  placed : Placed (1 + t.independents) body
  rows : t.rows = 1 + t.independents + rowCount body
  bound : t.rows < Index.argBound
  tail : tail = [] ∨ tail = [⟨.stop, [], t.rows - 1⟩]

variable {t t' : Tape F} {body tail : List Instr}

theorem Contains.isStopped_iff (h : t.Contains body tail) : t.isStopped = true ↔ tail ≠ [] := by
  refine h.lists.isStopped_iff ?_ (h.tail.imp_right fun htail => ⟨_, htail, rfl⟩)
  intro ins hins
  rcases List.mem_append.mp hins with hins | hins
  · exact (op_headInstrs ins hins).2
  · obtain ⟨n, hsound⟩ := h.sound.exists_of_mem hins
    exact hsound.op_ne.2.2

theorem Contains.grows (h : t.Contains body tail) (hg : t.Grows t') :
    ∃ body tail, t'.Contains body tail := by
  obtain ⟨l, hl, hnew⟩ := hg
  have hpos : 0 < t.rows := by
    rw [h.rows]
    omega
  have hrows := hl.rows
  have hlists := hl.lists _ h.lists
  have hsound := h.sound.mono hl.params hl.loads hl.registry
  have hplaced := h.placed
  have htotal := h.rows
  rw [← hl.independents] at hlists hsound hplaced htotal
  rcases h.tail with rfl | htail
  · refine ⟨body ++ l, [], ?_, ?_, ?_, ?_, hl.bound h.bound, Or.inl rfl⟩
    · simpa using hlists
    · rw [SoundInstrs, eachFrom_append, ← htotal]
      exact ⟨hsound, hnew hpos⟩
    · rw [placed_append, ← htotal]
      exact ⟨hplaced, hl.placed hpos⟩
    · rw [hrows, htotal, rowCount_append, Nat.add_assoc]
  · have hstopped : t.isStopped = true := h.isStopped_iff.mpr (by simp [htail])
    obtain rfl : l = [] := by
      by_contra hne
      rw [hl.running hne] at hstopped
      cases hstopped
    have hsame : t'.rows = t.rows := hrows
    rw [List.append_nil] at hlists
    refine ⟨body, tail, hlists, hsound, hplaced, hsame.trans htotal, hl.bound h.bound, Or.inr ?_⟩
    rw [hsame, htail]

/-- A new tape and its independents are recorded as on a tape without faults. -/
theorem contains_iff_spells : t.Contains [] [] ↔ t.Spells [] [] := by
  constructor
  · exact fun h => ⟨h.lists, trivial, h.rows, h.bound, h.tail⟩
  · exact fun h => ⟨h.lists, trivial, trivial, h.rows, h.bound, h.tail⟩

end Tape

namespace Recorder

/-- Finishing a tape appends a `stop` or nothing. -/
theorem extends_finish (t : Tape F) : t.Extends (left finish t) [⟨.stop, [], t.rows - 1⟩] ∨
    t.Extends (left finish t) [] := by
  cases hrun : (finish : Recorder F Unit) t with
  | error f t' =>
    rw [left_of_error hrun]
    exact Or.inr ((clean_append _ _).void t f t' hrun)
  | ok u t' =>
    rw [left_of_ok hrun]
    obtain ⟨_, _, happend, ⟨⟩⟩ := ok_of_bind hrun
    exact Or.inl (ok_of_append happend)

end Recorder

namespace Tape

variable {t t' : Tape F} {body tail : List Instr}

theorem Contains.finish (h : t.Contains body tail) :
    ∃ body tail, (Recorder.left Recorder.finish t).Contains body tail := by
  rcases Recorder.extends_finish t with hextends | hextends
  · have hrunning := hextends.running (List.cons_ne_nil _ _)
    obtain rfl : tail = [] := by
      by_contra hne
      rw [h.isStopped_iff.mpr hne] at hrunning
      cases hrunning
    have hlists := hextends.lists _ h.lists
    have hrows : (Recorder.left Recorder.finish t).rows = t.rows := hextends.rows
    have hsound := h.sound.mono hextends.params hextends.loads hextends.registry
    have hplaced := h.placed
    have htotal := h.rows
    rw [← hextends.independents] at hlists hsound hplaced htotal
    refine ⟨body, [⟨.stop, [], t.rows - 1⟩], ?_, hsound, hplaced, hrows.trans htotal,
      hextends.bound h.bound, Or.inr (by rw [hrows])⟩
    simpa using hlists
  · exact h.grows hextends.grows

/-- From `t` independents are declared: no fewer are counted after it, and a tape that holds nothing
but its independents stays so until they are too many for the counter of rows. -/
structure Declares (t t' : Tape F) : Prop where
  independents : t.independents ≤ t'.independents
  spells : t.Spells [] [] → t'.Spells [] [] ∨ Index.argBound ≤ 1 + t'.independents

theorem Declares.refl (t : Tape F) : t.Declares t := ⟨Nat.le_refl _, Or.inl⟩

theorem Declares.trans {t'' : Tape F} (h : t.Declares t') (h' : t'.Declares t'') :
    t.Declares t'' where
  independents := Nat.le_trans h.independents h'.independents
  spells ht := by
    rcases h.spells ht with ht' | hfull
    · exact h'.spells ht'
    · exact Or.inr (Nat.le_trans hfull (Nat.add_le_add_left h'.independents 1))

end Tape

namespace Recorder

open Tape (Declares)

variable {t : Tape F}

/-- There is room for an instruction on a tape that is not stopped while its rows can be counted. -/
theorem append_eq_ok {op : Opcode} (args : List Nat) (hrun : t.isStopped = false)
    (hb : t.rows + op.resultCount < Index.argBound) :
    append op args t = .ok (t.rows + op.resultCount - 1)
      (t.append op args (t.rows + op.resultCount)) := by
  have hrequire : (liftM (require (¬ t.isStopped) .stopped) : Recorder F Unit) t = .ok () t := by
    simp only [hrun, require]
    rfl
  have hcount : (liftM (Index.count t.rows op.resultCount) : Recorder F Nat) t =
      .ok (t.rows + op.resultCount) t := by
    rw [Index.count_eq_ok_iff.mpr ⟨hb, rfl⟩]
    rfl
  show EStateM.bind (liftM (require (¬ t.isStopped) .stopped)) _ t = _
  rw [EStateM.bind, hrequire]
  show EStateM.bind (liftM (Index.count t.rows op.resultCount)) _ t = _
  rw [EStateM.bind, hcount]
  rfl

/-- An independent is counted before its instruction is appended, so a fault between the two leaves
the count ahead. It takes a full counter of rows for that. -/
theorem declares_independent : t.Declares (left independent t) := by
  cases hcount : Index.count t.independents 1 with
  | error f =>
    have hrun : independent t = .error f t := by
      show EStateM.bind (liftM (Index.count t.independents 1)) _ t = _
      rw [EStateM.bind, hcount]
      rfl
    rw [left_of_error hrun]
    exact .refl t
  | ok n =>
    obtain ⟨hlt, rfl⟩ := Index.count_eq_ok_iff.mp hcount
    let s : Tape F := { t with independents := t.independents + 1 }
    have hrun : independent t = append .independent [] s := by
      show EStateM.bind (liftM (Index.count t.independents 1)) _ t = _
      rw [EStateM.bind, hcount]
      rfl
    cases happend : append .independent [] s with
    | ok row t' =>
      rw [happend] at hrun
      rw [left_of_ok hrun]
      have hindependents : t'.independents = t.independents + 1 :=
        (ok_of_append happend).independents
      exact ⟨by omega, fun ht => Or.inl (spells_independent hrun ht)⟩
    | error f t' =>
      rw [happend] at hrun
      rw [left_of_error hrun]
      have hindependents : t'.independents = t.independents + 1 :=
        (clean_append _ _ _ _ _ happend).independents
      refine ⟨by omega, fun ht => Or.inr ?_⟩
      by_contra hroom
      have hstopped : s.isStopped = false := by
        rw [← Bool.not_eq_true]
        exact fun hstopped => ht.isStopped_iff.mp hstopped rfl
      have hrows : s.rows = 1 + t.independents := ht.rows
      have hb : s.rows + Opcode.independent.resultCount < Index.argBound := by
        rw [hrows, Opcode.resultCount]
        omega
      cases (append_eq_ok [] hstopped hb).symm.trans happend

theorem declares_bind {α β : Type} {m : Recorder F α} {k : α → Recorder F β}
    (hm : t.Declares (left m t)) (hk : ∀ a (s : Tape F), s.Declares (left (k a) s)) :
    t.Declares (left (m >>= k) t) :=
  left_bind (fun _ _ _ h h' => h.trans h') hm fun a s _ _ => hk a s

theorem declares_collect {n i : Nat} {found : Array Nat} :
    t.Declares (left (Loop.fold n i (fun acc _ => return acc.push (← independent)) found) t) := by
  induction n generalizing t found i with
  | zero => exact .refl t
  | succ n ih =>
    exact declares_bind (declares_bind declares_independent fun _ s => .refl s) fun _ _ => ih

theorem declares_lift {α : Type} (x : Except Fault α) :
    t.Declares (left (liftM x : Recorder F α) t) := by
  rw [left_lift]
  exact .refl t

theorem declares_independents (n : Nat) : t.Declares (left (independents n) t) :=
  declares_bind (m := get) (.refl t) fun _ _ => declares_bind (declares_lift _) fun _ _ =>
    declares_bind (declares_lift _) fun _ _ => declares_collect

/-- Independents that are not declared first are refused. -/
theorem left_independents_of_late (n : Nat) (hlate : t.ops.size ≠ 1 + t.independents) :
    left (independents n) t = t := by
  apply left_of_error (f := .lateIndependent t.ops.size (1 + t.independents))
  show EStateM.bind (liftM (require _ _)) _ t = _
  rw [EStateM.bind, require, if_neg hlate]
  rfl

end Recorder

namespace Tape

variable {t : Tape F} {body tail : List Instr}

/-- What holds of a tape with any steps behind it: it contains sound instructions, unless more
independents have been counted than there can be rows. -/
def WellFormed (t : Tape F) : Prop :=
  (∃ body tail, t.Contains body tail) ∨ Index.argBound ≤ 1 + t.independents

theorem wellFormed_empty : (empty : Tape F).WellFormed :=
  Or.inl ⟨[], [], contains_iff_spells.mpr spells_empty⟩

theorem Grows.wellFormed {t' : Tape F} (h : t.WellFormed) (hg : t.Grows t') : t'.WellFormed := by
  rcases h with ⟨body, tail, h⟩ | hfull
  · exact Or.inl (h.grows hg)
  · obtain ⟨l, hl, -⟩ := hg
    exact Or.inr (hl.independents ▸ hfull)

/-- Where only independents have been recorded the tape contains nothing else. -/
theorem Contains.eq_nil (h : t.Contains body tail) (hsize : t.ops.size = 1 + t.independents) :
    body = [] ∧ tail = [] := by
  have hlength := h.lists.size_eq
  rw [List.length_append, List.length_append, length_headInstrs] at hlength
  exact ⟨List.length_eq_zero_iff.mp (by omega), List.length_eq_zero_iff.mp (by omega)⟩

/-- Each step leaves a well-formed tape, whether it comes out well or ends in a fault. -/
theorem WellFormed.record [Scalar F] (h : t.WellFormed) (action : Recorder.Action F) :
    (Recorder.left action.record t).WellFormed := by
  by_cases hindependents : ∃ n, action = .independents n
  · obtain ⟨n, rfl⟩ := hindependents
    have hleft : Recorder.left (Recorder.Action.independents n).record t =
        Recorder.left (Recorder.independents n) t := Recorder.left_void _ t
    have hdeclares := Recorder.declares_independents n (t := t)
    rw [hleft]
    rcases h with ⟨body, tail, h⟩ | hfull
    · by_cases hfirst : t.ops.size = 1 + t.independents
      · obtain ⟨rfl, rfl⟩ := h.eq_nil hfirst
        exact (hdeclares.spells (contains_iff_spells.mp h)).imp_left
          fun hs => ⟨[], [], contains_iff_spells.mpr hs⟩
      · rw [Recorder.left_independents_of_late n hfirst]
        exact Or.inl ⟨body, tail, h⟩
    · exact Or.inr (Nat.le_trans hfull (Nat.add_le_add_left hdeclares.independents 1))
  · simp only [not_exists] at hindependents
    by_cases hfinish : action = .finish
    · subst hfinish
      rcases h with ⟨body, tail, h⟩ | hfull
      · exact Or.inl h.finish
      · rcases Recorder.extends_finish t with hl | hl <;> exact Or.inr (hl.independents ▸ hfull)
    · exact (Recorder.grows_record action hindependents hfinish).wellFormed h

theorem wellFormed_ofAttempts [Scalar F] (actions : List (Recorder.Action F)) :
    (ofAttempts actions).WellFormed := by
  unfold ofAttempts
  generalize hempty : (empty : Tape F) = t
  have h : t.WellFormed := hempty ▸ wellFormed_empty
  clear hempty
  induction actions generalizing t with
  | nil => exact h
  | cons action actions ih => exact ih _ (h.record action)

end Tape

end JetTape
