import JetTape.Proofs.Tape.Faults

/-!
Tapes that can be stored. Their tables fit together, what the tables hold fits in 32 bits, and
markers of calls stand only on tapes that have operators. Every recording step keeps this, also one
that ends in a fault, and no step but a registration changes the registry.
-/
namespace JetTape

variable {F : Type}

/-- The numbers that the step stores without a check fit in 32 bits. -/
def Recorder.Action.Short : Action F → Prop
  | discrete function _ => function < Index.argBound
  | skip _ _ _ ifTrue ifFalse => ∀ i ∈ ifTrue ++ ifFalse, i < Index.argBound
  | load offset _ | store offset _ _ => offset < Index.argBound
  | print _ before _ after => before < Index.argBound ∧ after < Index.argBound
  | _ => True

theorem Index.toArg_lt (n : Nat) : toArg n < argBound := Nat.mod_lt n (by decide)

theorem Relation.code_lt (r : Relation) : r.code < Index.argBound := by
  cases r <;> decide

theorem Operand.flag_le (a : Operand) (bit : Nat) : a.flag bit ≤ bit := by
  cases a <;> simp [flag]

namespace Tape

/-- What storing a tape and reading it back ask of it. -/
structure Storable (t : Tape F) : Prop where
  first : t.ops[0]? = some .start
  starts_size : t.argStart.size = t.ops.size + 1
  rows_size : t.resultRows.size = t.ops.size
  last : t.argStart.back? = some (Index.toArg t.args.size)
  starts_lt : ∀ i ∈ t.argStart, i < Index.argBound
  args_lt : ∀ i ∈ t.args, i < Index.argBound
  resultRows_lt : ∀ i ∈ t.resultRows, i < Index.argBound
  params_lt : t.params.size < Index.argBound
  independents_lt : t.independents < Index.argBound
  rows_lt : t.rows < Index.argBound
  loads_lt : t.loads < Index.argBound
  registry_lt : t.registry.size < Index.argBound
  calls : .callMarker ∈ t.ops → 0 < t.registry.size

theorem storable_empty : (empty : Tape F).Storable where
  first := rfl
  starts_size := rfl
  rows_size := rfl
  last := rfl
  starts_lt := by simp [empty, Index.argBound]
  args_lt := by simp [empty, Index.argBound]
  resultRows_lt := by simp [empty, Index.argBound]
  params_lt := by simp [empty, Index.argBound]
  independents_lt := by simp [empty, Index.argBound]
  rows_lt := by simp [empty, Index.argBound]
  loads_lt := by simp [empty, Index.argBound]
  registry_lt := by simp [empty, Index.argBound]
  calls := by simp [empty]

variable {t t' t'' : Tape F}

theorem Storable.source_lt (h : t.Storable) {s : Source} {i : Nat}
    (hi : s.Valid t.rows t.params.size i) : i < Index.argBound := by
  cases s with
  | var => exact Nat.lt_trans hi.2 h.rows_lt
  | par => exact Nat.lt_trans hi h.params_lt

theorem Storable.operand_lt (h : t.Storable) {a : Operand} (ha : a.Valid t.rows t.params.size) :
    a.index < Index.argBound :=
  h.source_lt (Operand.valid_iff.mp ha)

/-- An instruction with short arguments can be stored. -/
theorem Storable.append (h : t.Storable) {op : Opcode} {args : List Nat} {rows : Nat}
    (hargs : ∀ i ∈ args, i < Index.argBound) (hrows : rows < Index.argBound)
    (hcall : op = .callMarker → 0 < t.registry.size) : (t.append op args rows).Storable where
  first := by
    have hpos := (Array.getElem?_eq_some_iff.mp h.first).1
    rw [ops_append, Array.getElem?_push_lt hpos, ← Array.getElem?_eq_getElem, h.first]
  starts_size := by simp [Tape.append, h.starts_size]
  rows_size := by simp [h.rows_size]
  last := by simp [Tape.append]
  starts_lt := by
    intro i hi
    rcases Array.mem_push.mp hi with hi | rfl
    · exact h.starts_lt i hi
    · exact Index.toArg_lt _
  args_lt := by
    intro i hi
    rcases Array.mem_append.mp hi with hi | hi
    · exact h.args_lt i hi
    · exact hargs i (List.mem_toArray.mp hi)
  resultRows_lt := by
    intro i hi
    rcases Array.mem_push.mp hi with hi | rfl
    · exact h.resultRows_lt i hi
    · omega
  params_lt := h.params_lt
  independents_lt := h.independents_lt
  rows_lt := hrows
  loads_lt := h.loads_lt
  registry_lt := h.registry_lt
  calls := by
    intro hmem
    rcases Array.mem_push.mp hmem with hmem | hop
    · exact h.calls hmem
    · exact hcall hop.symm

/-- The tape `t'` can be stored and has the operators of `t`. -/
structure Stores (t t' : Tape F) : Prop where
  registry : t'.registry = t.registry
  storable : t'.Storable

theorem Storable.stores (h : t.Storable) : t.Stores t := ⟨rfl, h⟩

theorem Stores.trans (h : t.Stores t') (h' : t'.Stores t'') : t.Stores t'' :=
  ⟨h'.registry.trans h.registry, h'.storable⟩

end Tape

namespace Recorder

open Tape (Storable Stores)

variable {α β : Type} {m : Recorder F α} {k : α → Recorder F β} {t : Tape F}

theorem stores_bind (hm : t.Stores (left m t))
    (hk : ∀ a s, m t = .ok a s → t.Stores s → s.Stores (left (k a) s)) :
    t.Stores (left (m >>= k) t) :=
  left_bind (fun _ _ _ h h' => h.trans h') hm hk

theorem stores_get {k : Tape F → Recorder F β} (h : t.Stores (left (k t) t)) :
    t.Stores (left (get >>= k) t) := h

/-- A change of a tape's counters needs only that what comes next starts from a tape that can be
stored. -/
theorem stores_modify {g : Tape F → Tape F} {k : PUnit → Recorder F β}
    (hregistry : (g t).registry = t.registry) (h : (g t).Stores (left (k ⟨⟩) (g t))) :
    t.Stores (left (modify g >>= k) t) :=
  ⟨h.registry.trans hregistry, h.storable⟩

theorem stores_void (hm : t.Stores (left m t)) :
    t.Stores (left (do let _ ← m; pure () : Recorder F Unit) t) := by
  rwa [left_void]

theorem left_var (x : Nat) (t : Tape F) : left (checkVar x) t = t := left_lift _ t

theorem left_par (i : Nat) (t : Tape F) : left (checkPar i) t = t := left_lift _ t

theorem left_index (s : Source) (i : Nat) (t : Tape F) : left (checkIndex s i) t = t := by
  cases s with
  | var => exact left_var i t
  | par => exact left_par i t

theorem left_operand (a : Operand) (t : Tape F) : left (checkOperand a) t = t := left_index _ _ t

theorem left_forM {check : α → Recorder F Unit} (hcheck : ∀ a t, left (check a) t = t)
    (l : List α) (t : Tape F) : left (l.forM check) t = t := by
  induction l generalizing t with
  | nil => rfl
  | cons a l ih =>
    exact left_bind (R := fun t t' => t' = t) (fun _ _ _ h h' => h'.trans h) (hcheck a t)
      fun _ s _ _ => ih s

/-- After a check that comes out well the rest runs on the same tape. -/
theorem Checks.stores_bind {m : Recorder F Unit} {k : Unit → Recorder F β} {p : Tape F → Prop}
    (hm : Checks m p) (hleft : left m t = t) (h : t.Storable)
    (hk : p t → t.Stores (left (k ()) t)) : t.Stores (left (m >>= k) t) := by
  refine Recorder.stores_bind (by rw [hleft]; exact h.stores) fun u s hs _ => ?_
  obtain ⟨hp, rfl⟩ := hm t u s hs
  exact hk hp

theorem stores_append (h : t.Storable) {op : Opcode} {args : List Nat}
    (hargs : ∀ i ∈ args, i < Index.argBound) (hcall : op = .callMarker → 0 < t.registry.size) :
    t.Stores (left (append op args) t) := by
  refine stores_get (checks_require.stores_bind (left_lift _ t) h fun _ => stores_get ?_)
  refine stores_bind (by rw [left_lift]; exact h.stores) fun rows s hs _ => ?_
  obtain ⟨hcount, rfl⟩ := ok_of_lift hs
  obtain ⟨hrows, rfl⟩ := Index.count_eq_ok_iff.mp hcount
  exact ⟨rfl, h.append hargs hrows hcall⟩

theorem stores_parameter (h : t.Storable) (value : F) : t.Stores (left (parameter value) t) := by
  refine stores_get (checks_require.stores_bind (left_lift _ t) h fun hroom => ⟨rfl, ?_⟩)
  have hsize : (t.params.push value).size < Index.argBound := by
    rw [Array.size_push]
    omega
  exact { h with params_lt := hsize }

theorem stores_independent (h : t.Storable) : t.Stores (left independent t) := by
  refine stores_get (stores_bind (by rw [left_lift]; exact h.stores) fun n s hs _ => ?_)
  obtain ⟨hcount, rfl⟩ := ok_of_lift hs
  obtain ⟨hlt, rfl⟩ := Index.count_eq_ok_iff.mp hcount
  have hcounted : ({ s with independents := s.independents + 1 } : Tape F).Storable :=
    { h with independents_lt := hlt }
  exact stores_modify rfl (stores_append hcounted (by simp) nofun)

theorem stores_collect (h : t.Storable) {n i : Nat} {found : Array Nat} :
    t.Stores (left (Loop.fold n i (fun acc _ => return acc.push (← independent)) found) t) := by
  induction n generalizing t found i with
  | zero => exact h.stores
  | succ n ih =>
    refine stores_bind (stores_bind (stores_independent h) fun _ s _ hs => hs.storable.stores)
      fun _ s _ hs => ih hs.storable

theorem stores_independents (h : t.Storable) (n : Nat) : t.Stores (left (independents n) t) := by
  refine checks_require.stores_bind (left_lift _ t) h fun _ => ?_
  refine stores_bind (by rw [left_lift]; exact h.stores) fun _ s _ hs => ?_
  exact stores_collect hs.storable

theorem stores_operation (h : t.Storable) (op : Opcode) (args : List Nat) :
    t.Stores (left (operation op args) t) := by
  unfold operation
  cases hsources : op.sources? with
  | none => exact h.stores
  | some sources =>
    refine checks_require.stores_bind (left_lift _ t) h fun hlength => ?_
    refine (checks_forM (fun a : Source × Nat => checks_index (s := a.1) (i := a.2)) _).stores_bind
      (left_forM (fun a : Source × Nat => left_index a.1 a.2) _ t) h fun hvalid => ?_
    refine stores_append h ?_ fun hop => by rw [hop] at hsources; cases hsources
    intro i hi
    rw [← List.map_snd_zip (Nat.le_of_eq hlength : args.length ≤ sources.length)] at hi
    obtain ⟨a, ha, rfl⟩ := List.mem_map.mp hi
    exact h.source_lt (hvalid a ha)

theorem stores_erf [Scalar F] (h : t.Storable) (x : Nat) : t.Stores (left (erf x) t) := by
  refine checks_var.stores_bind (left_var x t) h fun hx => ?_
  have hx := h.source_lt hx
  refine stores_bind (stores_parameter h 0) fun origin s hs hst => ?_
  have horigin := Nat.lt_trans (ok_of_parameter hs).2 hst.storable.params_lt
  refine stores_bind (stores_parameter hst.storable _) fun scale s' hs' hst' => ?_
  have hscale := Nat.lt_trans (ok_of_parameter hs').2 hst'.storable.params_lt
  exact stores_append hst'.storable (by simp [hx, horigin, hscale]) nofun

theorem stores_choose (h : t.Storable) (r : Relation) (left right ifTrue ifFalse : Operand) :
    t.Stores (Recorder.left (choose r left right ifTrue ifFalse) t) := by
  refine checks_operand.stores_bind (left_operand _ t) h fun hl => ?_
  refine checks_operand.stores_bind (left_operand _ t) h fun hr => ?_
  refine checks_operand.stores_bind (left_operand _ t) h fun ht => ?_
  refine checks_operand.stores_bind (left_operand _ t) h fun hf => ?_
  have hflags : left.flag 1 + right.flag 2 + ifTrue.flag 4 + ifFalse.flag 8 < Index.argBound := by
    have := left.flag_le 1
    have := right.flag_le 2
    have := ifTrue.flag_le 4
    have := ifFalse.flag_le 8
    have : 15 < Index.argBound := by decide
    omega
  exact stores_append h (by simp [r.code_lt, hflags, h.operand_lt hl, h.operand_lt hr,
    h.operand_lt ht, h.operand_lt hf]) nofun

theorem stores_sum (h : t.Storable) (p : Nat) (added subtracted : List Nat) :
    t.Stores (left (sum p added subtracted) t) := by
  refine checks_par.stores_bind (left_par p t) h fun hp => ?_
  refine (checks_forM (fun x => checks_var) _).stores_bind (left_forM left_var _ t) h
    fun hvars => ?_
  have hvars : ∀ x ∈ added ++ subtracted, x < Index.argBound := fun x hx => h.source_lt (hvars x hx)
  refine stores_append h ?_ nofun
  rw [List.append_assoc _ added]
  simp only [List.mem_append, List.mem_cons, List.not_mem_nil, or_false] at hvars ⊢
  rintro i (((rfl | rfl | rfl) | hi) | rfl)
  · exact Index.toArg_lt _
  · exact Index.toArg_lt _
  · exact h.source_lt hp
  · exact hvars i hi
  · exact Index.toArg_lt _

/-- The flags of two operands fit with all other arguments in 32 bits. -/
theorem flags_lt (left right : Operand) : left.flag 1 + right.flag 2 < Index.argBound := by
  have := left.flag_le 1
  have := right.flag_le 2
  have : 3 < Index.argBound := by decide
  omega

theorem stores_skip (h : t.Storable) (r : Relation) (left right : Operand)
    {ifTrue ifFalse : List Nat} (hshort : ∀ i ∈ ifTrue ++ ifFalse, i < Index.argBound) :
    t.Stores (Recorder.left (skip r left right ifTrue ifFalse) t) := by
  refine checks_operand.stores_bind (left_operand _ t) h fun hl => ?_
  refine checks_operand.stores_bind (left_operand _ t) h fun hr => ?_
  refine stores_void (stores_append h ?_ nofun)
  rw [List.append_assoc _ ifTrue]
  simp only [List.mem_append, List.mem_cons, List.not_mem_nil, or_false] at hshort ⊢
  rintro i (((rfl | rfl | rfl | rfl | rfl | rfl) | hi) | rfl)
  · exact r.code_lt
  · exact flags_lt left right
  · exact h.operand_lt hl
  · exact h.operand_lt hr
  · exact Index.toArg_lt _
  · exact Index.toArg_lt _
  · exact hshort i hi
  · exact Index.toArg_lt _

theorem stores_load (h : t.Storable) {offset : Nat} (hoffset : offset < Index.argBound)
    (index : Operand) : t.Stores (left (load offset index) t) := by
  refine checks_operand.stores_bind (left_operand _ t) h fun hvalid => ?_
  have hindex := h.operand_lt hvalid
  refine stores_get (stores_bind (by rw [left_lift]; exact h.stores) fun loads s hs _ => ?_)
  obtain ⟨hcount, rfl⟩ := ok_of_lift hs
  obtain ⟨hlt, rfl⟩ := Index.count_eq_ok_iff.mp hcount
  have hcounted : ({ s with loads := s.loads + 1 } : Tape F).Storable := { h with loads_lt := hlt }
  exact stores_modify rfl
    (stores_append hcounted (by simp [hoffset, hindex, h.loads_lt]) nofun)

theorem stores_compare (h : t.Storable) (op : Opcode) (left right : Nat) :
    t.Stores (Recorder.left (compare op left right) t) := by
  cases op with
  | compare f =>
    refine checks_index.stores_bind (left_index _ _ t) h fun hl => ?_
    refine checks_index.stores_bind (left_index _ _ t) h fun hr => ?_
    exact stores_void (stores_append h (by simp [h.source_lt hl, h.source_lt hr]) nofun)
  | _ => exact h.stores

theorem stores_register (h : t.Storable) (operator : Operator F) :
    (left (register operator) t).Storable ∧ 0 < (left (register operator) t).registry.size := by
  by_cases hroom : t.registry.size < Index.argBound - 1
  · have hleft : left (register operator) t =
        { t with registry := t.registry.push operator } := by
      apply left_of_ok (a := t.registry.size)
      show EStateM.bind (liftM (require _ _)) _ t = _
      rw [EStateM.bind, require, if_pos hroom]
      rfl
    rw [hleft]
    refine ⟨{ h with registry_lt := ?_, calls := fun _ => ?_ }, ?_⟩
    · show (t.registry.push operator).size < Index.argBound
      rw [Array.size_push]
      omega
    · simp
    · simp
  · have hleft : left (register operator) t = t := by
      apply left_of_error (f := .tooManyOperators)
      show EStateM.bind (liftM (require _ _)) _ t = _
      rw [EStateM.bind, require, if_neg hroom]
      rfl
    have : 1 < Index.argBound := by decide
    rw [hleft]
    exact ⟨h, by omega⟩

theorem stores_callArg (h : t.Storable) (a : Operand) : t.Stores (left (callArg a) t) :=
  checks_operand.stores_bind (left_operand a t) h fun ha =>
    stores_void (stores_append h (by simp [h.operand_lt ha]) nofun)

theorem stores_callResult (h : t.Storable) (r : CallResult F) :
    t.Stores (left (callResult r) t) := by
  cases r with
  | var =>
    exact stores_bind (stores_append h (by simp) nofun) fun _ s _ hs => hs.storable.stores
  | constant value =>
    refine stores_bind (stores_parameter h value) fun i s hs hst => ?_
    have hi := Nat.lt_trans (ok_of_parameter hs).2 hst.storable.params_lt
    exact stores_bind (stores_append hst.storable (by simp [hi]) nofun)
      fun _ s _ hs => hs.storable.stores

theorem stores_forM {step : α → Recorder F Unit}
    (hstep : ∀ a (t : Tape F), t.Storable → t.Stores (left (step a) t)) (l : List α)
    (h : t.Storable) : t.Stores (left (l.forM step) t) := by
  induction l generalizing t with
  | nil => exact h.stores
  | cons a l ih => exact stores_bind (hstep a t h) fun _ s _ hs => ih hs.storable

theorem stores_mapM {step : α → Recorder F β}
    (hstep : ∀ a (t : Tape F), t.Storable → t.Stores (left (step a) t)) (l : List α)
    (h : t.Storable) : t.Stores (left (l.mapM step) t) := by
  induction l generalizing t with
  | nil => exact h.stores
  | cons a l ih =>
    rw [List.mapM_cons]
    exact stores_bind (hstep a t h) fun _ s _ hs => stores_bind (ih hs.storable)
      fun _ s _ hs => hs.storable.stores

theorem stores_call (h : t.Storable) (handle callId : Nat) (args : List Operand)
    (results : List (CallResult F)) : t.Stores (left (call handle callId args results) t) := by
  refine checks_require.stores_bind (left_lift _ t) h fun hhandle => ?_
  refine checks_require.stores_bind (left_lift _ t) h fun hcallId => ?_
  have hmarker {s : Tape F} (hs : t.Stores s) : s.Stores (left (append .callMarker
      [handle, callId, Index.toArg args.length, Index.toArg results.length]) s) := by
    refine stores_append hs.storable ?_ fun _ => by rw [hs.registry]; omega
    simp [Nat.lt_trans hhandle h.registry_lt, hcallId, Index.toArg_lt]
  refine stores_bind (hmarker h.stores) fun _ t₁ _ h₁ => ?_
  refine stores_bind (stores_forM (fun a _ h => stores_callArg h a) args h₁.storable)
    fun _ t₂ _ h₂ => ?_
  refine stores_bind (stores_mapM (fun r _ h => stores_callResult h r) results h₂.storable)
    fun _ t₃ _ h₃ => ?_
  exact stores_bind (hmarker ((h₁.trans h₂).trans h₃)) fun _ s _ hs => hs.storable.stores

/-- A step that registers no operator leaves a tape that can be stored, with the operators that it
had. -/
theorem stores_record [Scalar F] (h : t.Storable) {action : Action F} (hshort : action.Short)
    (hregister : ∀ operator, action ≠ .register operator) : t.Stores (left action.record t) := by
  cases action with
  | independents n => exact stores_void (stores_independents h n)
  | parameter value => exact stores_void (stores_parameter h value)
  | operation op args => exact stores_void (stores_operation h op args)
  | constant p =>
    exact stores_void (checks_par.stores_bind (left_par p t) h fun hp =>
      stores_append h (by simp [h.source_lt hp]) nofun)
  | erf x => exact stores_void (stores_erf h x)
  | discrete function x =>
    have hfunction : function < Index.argBound := hshort
    exact stores_void (checks_var.stores_bind (left_var x t) h fun hx =>
      stores_append h (by simp [hfunction, h.source_lt hx]) nofun)
  | choose r left right ifTrue ifFalse =>
    exact stores_void (stores_choose h r left right ifTrue ifFalse)
  | sum p added subtracted => exact stores_void (stores_sum h p added subtracted)
  | skip r left right ifTrue ifFalse => exact stores_skip h r left right hshort
  | load offset index => exact stores_void (stores_load h hshort index)
  | store offset index value =>
    have hoffset : offset < Index.argBound := hshort
    refine checks_operand.stores_bind (left_operand _ t) h fun hi => ?_
    refine checks_operand.stores_bind (left_operand _ t) h fun hv => ?_
    exact stores_void (stores_append h (by simp [hoffset, h.operand_lt hi, h.operand_lt hv]) nofun)
  | compare op left right => exact stores_compare h op left right
  | print position before value after =>
    refine checks_operand.stores_bind (left_operand _ t) h fun hp => ?_
    refine checks_operand.stores_bind (left_operand _ t) h fun hv => ?_
    exact stores_void (stores_append h (by simp [hshort.1, hshort.2, h.operand_lt hp,
      h.operand_lt hv, flags_lt]) nofun)
  | register operator => exact absurd rfl (hregister operator)
  | call handle callId args results => exact stores_void (stores_call h handle callId args results)
  | finish => exact stores_void (stores_append h (by simp) nofun)

end Recorder

namespace Tape

/-- Every step keeps a tape storable. It has operators afterwards if it had some or if the step
registers one. -/
theorem Storable.record [Scalar F] {t : Tape F} (h : t.Storable) {action : Recorder.Action F}
    (hshort : action.Short) : (Recorder.left action.record t).Storable ∧
      (0 < (Recorder.left action.record t).registry.size ↔
        0 < t.registry.size ∨ ∃ operator, action = .register operator) := by
  by_cases hregister : ∃ operator, action = .register operator
  · obtain ⟨operator, rfl⟩ := hregister
    have hleft : Recorder.left (Recorder.Action.register operator).record t =
        Recorder.left (Recorder.register operator) t := Recorder.left_void _ t
    obtain ⟨hstorable, hpos⟩ := Recorder.stores_register h operator
    rw [hleft]
    exact ⟨hstorable, fun _ => Or.inr ⟨operator, rfl⟩, fun _ => hpos⟩
  · have hstores := Recorder.stores_record h hshort (not_exists.mp hregister)
    refine ⟨hstores.storable, ?_⟩
    rw [hstores.registry]
    exact (or_iff_left hregister).symm

/-- After any steps a tape can be stored. It has operators exactly if a step has registered one. -/
theorem storable_ofAttempts [Scalar F] {actions : List (Recorder.Action F)}
    (hshort : ∀ action ∈ actions, action.Short) : (ofAttempts actions).Storable ∧
      (0 < (ofAttempts actions).registry.size ↔ ∃ operator, .register operator ∈ actions) := by
  suffices h : ∀ t : Tape F, t.Storable →
      let t' := actions.foldl (fun t action => Recorder.left action.record t) t
      t'.Storable ∧ (0 < t'.registry.size ↔
        0 < t.registry.size ∨ ∃ operator, .register operator ∈ actions) by
    have hnone : ¬ 0 < (empty : Tape F).registry.size := by simp [empty]
    obtain ⟨hstorable, hregistry⟩ := h empty storable_empty
    exact ⟨hstorable, hregistry.trans (or_iff_right hnone)⟩
  induction actions with
  | nil => exact fun t h => ⟨h, by simp⟩
  | cons action actions ih =>
    intro t h t'
    obtain ⟨hstep, hregistry⟩ := h.record (hshort action List.mem_cons_self)
    obtain ⟨hrest, hlater⟩ := ih (fun a ha => hshort a (List.mem_cons_of_mem _ ha)) _ hstep
    refine ⟨hrest, hlater.trans ?_⟩
    rw [hregistry, or_assoc]
    apply or_congr_right
    constructor
    · rintro (⟨operator, rfl⟩ | ⟨operator, hmem⟩)
      · exact ⟨operator, List.mem_cons_self⟩
      · exact ⟨operator, List.mem_cons_of_mem _ hmem⟩
    · rintro ⟨operator, hmem⟩
      rcases List.mem_cons.mp hmem with heq | hmem
      · exact Or.inl ⟨operator, heq.symm⟩
      · exact Or.inr ⟨operator, hmem⟩

end Tape

end JetTape
