import JetTape.Proofs.Replay.Walk

/-!
The replay of a sequence of items. From any index at which the cursor comes to stand where the items
begin, the replay does to the arena and to the requests what `Plan.replayItems` does to the jets.
-/
namespace JetTape

open Arena (Fits SameShape)
open Call (Frame)

variable {F : Type}

theorem Loop.collect_eq_ok {α : Type} {f : Nat → Arena.Read F α} {g : Nat → α} {a : Arena F}
    {i c : Nat} (h : ∀ k, i ≤ k → k < i + c → f k a = .ok (g k)) :
    Loop.collect c i f a = .ok ((List.range' i c).map g).toArray := by
  have hpush : ∀ (acc : Array α) k, i ≤ k → k < i + c →
      (do return acc.push (← f k) : Arena.Read F (Array α)) a = .ok (acc.push (g k)) := by
    intro acc k hi hk
    rw [Arena.read_of_eq (h k hi hk)]
    rfl
  unfold Loop.collect
  rw [Loop.fold_eq_ok hpush]
  simp [List.foldl_push_eq_append]

variable [Scalar F]

namespace Replay

variable {P : Program F} {a : Arena F} {n i q : Nat} {ins : Instr}

/-- Outside call blocks a step is an update of the arena. -/
theorem step_eq_update {options : Options} {resolved : Array Nat} (h : ins.op.isPlain = true) :
    step P q resolved options i ins =
      (liftM (Recurrence.update q P.params resolved ins) : Replay F Unit) := by
  obtain ⟨op, args, row⟩ := ins
  funext s
  obtain ⟨a, frame, requests, events⟩ := s
  cases op <;> first | rfl | cases h

theorem leads_trace (options : Options) (frame : Option (Frame F))
    (requests : Array (Request F)) (ha : a.Fits n q)
    (hrow : ins.op.resultCount = 0 ∨ ins.op = .callResult .var ∨ ins.row < n) :
    Leads (trace options q i ins) ⟨a, frame, requests⟩ (.ok ()) ⟨a, frame, requests⟩ := by
  unfold trace
  split
  · by_cases hquiet : ins.op.resultCount = 0 ∨ ins.op = .callResult .var
    · rw [if_pos hquiet]
      exact leads_report options _
    · have hlt : ins.row < n := by tauto
      have hseries : (Loop.collect a.layout.directions 0 fun l =>
          Loop.collect q 1 fun k => Arena.coeff ins.row k l : Arena.Read F (Array (Array F))) a =
          .ok _ :=
        Loop.collect_eq_ok fun l _ hl => Loop.collect_eq_ok fun k _ hk =>
          ha.coeff_eq (by omega) hlt (by omega)
      rw [if_neg hquiet]
      apply (leads_read (m := Arena.directions) rfl).bind
      apply (leads_read hseries).bind
      apply (leads_read (ha.coeff_eq ha.directed hlt (Nat.zero_le q))).bind
      exact leads_report options _
  · exact leads_pure ()

end Replay

/-- What a sweep needs of an item beyond its being valid. -/
structure Plan.Serves (p : Plan F) (item : Item) : Prop where
  admits : p.Admits item
  counted : ∀ b, item = .call b →
    b.args.length < Index.argBound ∧ b.results.length < Index.argBound

/-- An instruction outside call blocks that is not passed over. -/
theorem Replay.leads_plain {P : Program F} {p : Plan F} (hp : p.For P) {a : Arena F}
    (options : Options) (requests : Array (Request F)) {n rows i : Nat} {ins : Instr} {k : Nat}
    (ha : a.Fits rows p.order)
    (hvalid : (Item.plain ins).Valid n p.params.size p.resolved.size k)
    (hadmits : p.Admits (.plain ins)) (hn : 0 < n) (hrows : n + ins.op.resultCount ≤ rows)
    (hbound : rows ≤ Index.argBound) :
    ∃ a', SameShape a a' ∧
      (∀ l < a.layout.directions, a'.jet l = p.advance (.plain ins) (a.jet l)) ∧
      Leads (step P p.order p.resolved options i ins) ⟨a, none, requests⟩ (.ok ())
        ⟨a', none, requests⟩ := by
  obtain ⟨hargs, hload⟩ := hadmits ins List.mem_cons_self
  have hrow : ins.row + 1 = n + ins.op.resultCount := hvalid.placed.1
  have hupdate : Arena.Along rows p.order (Recurrence.update p.order p.params p.resolved ins)
      fun _ => p.advance (.plain ins) :=
    Recurrence.along_update hvalid.1 hn hrow (by omega) hbound hargs hload
  obtain ⟨a', hupdate, hshape, hjets⟩ := hupdate a ha
  refine ⟨a', hshape, hjets, ?_⟩
  rw [step_eq_update hvalid.1.isPlain, hp.params]
  exact leads_update hupdate

namespace Replay

/-- The replay at index `i₀` does to the arena and to the requests what the outcome says, ends
where the outcome has a stop, and goes on at index `i` where it has none. -/
def Brings (P : Program F) (p : Plan F) (options : Options) (requests : Array (Request F))
    (a : Arena F) (outcome : Outcome F) (i₀ i : Nat) : Prop :=
  ∃ a', SameShape a a' ∧ (∀ l < a.layout.directions, a'.jet l = outcome.jets l) ∧
    (∀ stop, outcome.stop = some stop →
      Leads (replayFrom P p.order p.mask p.resolved options i₀) ⟨a, none, requests⟩
        (.error stop) ⟨a', none, requests ++ outcome.requests.toArray⟩) ∧
    (outcome.stop = none → Reaches P p.order p.mask p.resolved options i₀ ⟨a, none, requests⟩ i
      ⟨a', none, requests ++ outcome.requests.toArray⟩)

variable {P : Program F} {p : Plan F} (hp : p.For P) (options : Options)
variable (requests : Array (Request F)) {a : Arena F} {n rows i i₀ : Nat} {b : Block}

include hp

/-- A call argument joins the frame. -/
theorem leads_arg (ha : a.Fits rows p.order) {args : List Instr} {ins : Instr} {x : Operand}
    (hx : x.Valid rows p.params.size) (hop : ins.op = .callArg x.source)
    (hargs : ins.args = [x.index]) (hlen : args.length < b.args.length) :
    Leads (step P p.order p.resolved options i ins) ⟨a, some (p.frame a b args []), requests⟩
      (.ok ()) ⟨a, some (p.frame a b (args ++ [ins]) []), requests⟩ := by
  have hphase := Plan.frame_phase_args (p := p) (a := a) hlen
  obtain ⟨op, iargs, row⟩ := ins
  simp only at hop hargs
  subst hop hargs
  cases x with
  | var v =>
    exact (leads_ok rfl).bind (leads_takeArg requests hphase
      (Plan.putArg_frame ha.directed fun k hk d hd => ha.coeff_eq hd hx.2 hk))
  | par k =>
    have hget : Index.get P.params k = .ok (p.params.getD k 0) := by
      have hk : k < p.params.size := hx
      rw [hp.params]
      simp [Index.get, hk]
    exact (leads_ok rfl).bind ((leads_ok hget).bind (leads_takeArg requests hphase
      (Plan.putArg_frame ha.directed fun _ _ _ _ => rfl)))

/-- A call result joins the frame. -/
theorem leads_result (ha : a.Fits rows p.order) {results : List Instr} {ins : Instr}
    (hop : ins.op = .callResult .var ∨
      ∃ k, k < p.params.size ∧ ins.op = .callResult .par ∧ ins.args = [k])
    (hrow : ins.row < rows) (hlen : results.length < b.results.length) :
    Leads (step P p.order p.resolved options i ins)
      ⟨a, some (p.frame a b b.args results), requests⟩ (.ok ())
      ⟨a, some (p.frame a b b.args (results ++ [ins])), requests⟩ := by
  have hphase := Plan.frame_phase_results (p := p) (a := a) hlen
  obtain ⟨op, iargs, row⟩ := ins
  simp only at hop hrow
  rcases hop with rfl | ⟨k, hk, rfl, rfl⟩
  · exact leads_takeResult requests hphase
      (Plan.putResult_frame rfl ha.directed fun k hk d hd => ha.coeff_eq hd hrow hk)
  · have hget : Index.get P.params k = .ok (p.params.getD k 0) := by
      rw [hp.params]
      simp [Index.get, hk]
    exact (leads_ok rfl).bind ((leads_ok hget).bind (leads_takeResult requests hphase
      (Plan.putResult_frame rfl ha.directed fun _ _ _ _ => rfl)))

/-- What a marker does. -/
theorem step_marker {ins : Instr} (hmarker : ins.op = .callMarker) :
    step P p.order p.resolved options i ins = (do
      marker options p.order (← CallSite.ofArgs p.registry ins.args)) := by
  rw [← hp.callSite]
  simp only [step, hmarker]

/-- The opening marker of a block. -/
theorem leads_opening (hb : b.Valid n p.params.size p.registry.size) {operator : Operator F}
    (hsite : CallSite.ofArgs p.registry b.opening.args = .ok (b.site operator)) {f : Frame F}
    (hnew : Frame.new (b.site operator) p.order a.layout.directions = .ok f) :
    Leads (step P p.order p.resolved options i b.opening) ⟨a, none, requests⟩ (.ok ())
      ⟨a, some (p.frame a b [] []), requests⟩ := by
  obtain rfl := Frame.eq_of_new hnew
  rw [step_marker hp options hb.opens]
  exact (leads_ok hsite).bind (leads_open options requests hnew)

/-- The arguments of a block gather in the frame. -/
theorem reaches_args (ha : a.Fits rows p.order) (hb : b.Valid n p.params.size p.registry.size)
    (hrows : n ≤ rows) (hholds : P.Holds i b.args)
    (hmask : ∀ k < b.args.length, p.mask[i + k]? = some false) :
    Reaches P p.order p.mask p.resolved options i ⟨a, some (p.frame a b [] []), requests⟩
      (i + b.args.length) ⟨a, some (p.frame a b b.args []), requests⟩ := by
  have hwalk : Reaches P p.order p.mask p.resolved options _ _ _ _ := reaches_walk
    (fun k => ⟨a, some (p.frame a b (b.args.take k) []), requests⟩) hholds hmask ?_ ?_ ?_
  · rwa [List.take_length] at hwalk
  · intro ins hins
    obtain ⟨x, -, hop, -⟩ := hb.args ins hins
    simp [hop]
  · intro k hk
    obtain ⟨x, hx, hop, hargs⟩ := hb.args b.args[k] (List.getElem_mem hk)
    have hlen : (b.args.take k).length < b.args.length := by
      rw [List.length_take]
      omega
    rw [List.take_succ_eq_append_getElem hk]
    exact leads_arg hp options requests ha (hx.mono hrows (Nat.le_refl _)) hop hargs hlen
  · intro k hk
    obtain ⟨x, -, hop, -⟩ := hb.args b.args[k] (List.getElem_mem hk)
    exact leads_trace options _ requests ha (Or.inl (by simp [hop, Opcode.resultCount]))

/-- The results of a block gather in the frame that holds its arguments. -/
theorem reaches_results (ha : a.Fits rows p.order)
    (hb : b.Valid n p.params.size p.registry.size)
    (hrows : ∀ ins ∈ b.results, ins.row < rows) (hholds : P.Holds i b.results)
    (hmask : ∀ k < b.results.length, p.mask[i + k]? = some false) :
    Reaches P p.order p.mask p.resolved options i ⟨a, some (p.frame a b b.args []), requests⟩
      (i + b.results.length) ⟨a, some (p.frame a b b.args b.results), requests⟩ := by
  have hwalk : Reaches P p.order p.mask p.resolved options _ _ _ _ := reaches_walk
    (fun k => ⟨a, some (p.frame a b b.args (b.results.take k)), requests⟩) hholds hmask ?_ ?_ ?_
  · rwa [List.take_length] at hwalk
  · intro ins hins
    rcases hb.results ins hins with hop | ⟨k, -, hop, -⟩ <;> simp [hop]
  · intro k hk
    have hmem : b.results[k] ∈ b.results := List.getElem_mem hk
    have hlen : (b.results.take k).length < b.results.length := by
      rw [List.length_take]
      omega
    rw [List.take_succ_eq_append_getElem hk]
    exact leads_result hp options requests ha (hb.results _ hmem) (hrows _ hmem) hlen
  · intro k hk
    rcases hb.results b.results[k] (List.getElem_mem hk) with hop | ⟨_, -, hop, -⟩
    · exact leads_trace options _ requests ha (Or.inr (Or.inl hop))
    · exact leads_trace options _ requests ha (Or.inl (by simp [hop, Opcode.resultCount]))

/-- A block that is not passed over, up to its closing marker. -/
theorem reaches_closing (ha : a.Fits rows p.order)
    (hb : b.Valid n p.params.size p.registry.size) (hn : 0 < n)
    (hrows : n + rowCount b.instrs ≤ rows) (hholds : P.Holds i b.instrs)
    (hmask : ∀ k < b.instrs.length, p.mask[i + k]? = some false)
    (hnext : Cursor.next P p.mask i₀ = .ok i) {operator : Operator F}
    (hsite : CallSite.ofArgs p.registry b.opening.args = .ok (b.site operator)) {f : Frame F}
    (hnew : Frame.new (b.site operator) p.order a.layout.directions = .ok f) :
    ∃ j, j + 1 = i + b.instrs.length ∧ P.instr j = .ok b.closing ∧
      Cursor.next P p.mask j = .ok j ∧
      Reaches P p.order p.mask p.resolved options i₀ ⟨a, none, requests⟩ j
        ⟨a, some (p.frame a b b.args b.results), requests⟩ := by
  have hlen : b.instrs.length = b.args.length + b.results.length + 2 := by
    simp [Block.instrs]
    omega
  have hsplit : b.instrs = b.opening :: (b.args ++ (b.results ++ [b.closing])) := by
    simp [Block.instrs]
  rw [hsplit] at hholds
  obtain ⟨hopening, hholds⟩ := Program.holds_cons.mp hholds
  obtain ⟨hargsAt, hholds⟩ := Program.holds_append.mp hholds
  obtain ⟨hresultsAt, hclosingAt⟩ := Program.holds_append.mp hholds
  have hrowlt : ∀ ins ∈ b.results, ins.row < rows := by
    intro ins hins
    have := hb.placed.row_lt hn ins (by simp [Block.instrs, hins])
    omega
  have hunmarked : ∀ j, i ≤ j → j < i + b.instrs.length → p.mask[j]? = some false := by
    intro j hi hj
    have := hmask (j - i) (by omega)
    rwa [show i + (j - i) = j by omega] at this
  have hopen := reaches_next hnext hopening (by simp [hb.opens])
    (leads_opening hp options requests hb hsite hnew)
    (leads_trace options _ requests ha (Or.inl (by simp [hb.opens, Opcode.resultCount])))
  have hargs := reaches_args hp options requests ha hb (by omega) hargsAt
    fun k hk => hunmarked _ (by omega) (by omega)
  have hresults := reaches_results hp options requests ha hb hrowlt hresultsAt
    fun k hk => hunmarked _ (by omega) (by omega)
  exact ⟨_, by omega, (Program.holds_cons.mp hclosingAt).1,
    Cursor.next_of_unmarked (hunmarked _ (by omega) (by omega)), (hopen.trans hargs).trans hresults⟩

omit [Scalar F] in
/-- The markers of a valid item are matched. -/
theorem bracketed_of_valid {item : Item} {m : Nat}
    (hitem : item.Valid n p.params.size m p.registry.size)
    (hcounted : ∀ b, item = .call b →
      b.args.length < Index.argBound ∧ b.results.length < Index.argBound) :
    item.Bracketed P := by
  cases item with
  | plain ins =>
    intro hop
    have hplain := hitem.1.isPlain
    rw [hop] at hplain
    cases hplain
  | call b =>
    have hb : b.Valid n p.params.size p.registry.size := hitem
    obtain ⟨hargs, hresults⟩ := hcounted b rfl
    obtain ⟨operator, -, hsite⟩ := Plan.exists_site hb hargs hresults
    rw [← hp.callSite] at hsite
    exact ⟨hb.opens, hb.closes, hb.not_marker, ⟨_, hsite, rfl, rfl⟩, _, hb.repeats ▸ hsite⟩

theorem brings_plain {ins : Instr} {k : Nat} (ha : a.Fits rows p.order)
    (hvalid : (Item.plain ins).Valid n p.params.size p.resolved.size k)
    (hadmits : p.Admits (.plain ins)) (hn : 0 < n) (hrows : n + ins.op.resultCount ≤ rows)
    (hbound : rows ≤ Index.argBound) (hholds : P.Holds i [ins])
    (hnext : Cursor.next P p.mask i₀ = .ok i) :
    Brings P p options requests a (p.replayItem a.layout.directions (.plain ins) a.jet) i₀
      (i + 1) := by
  obtain ⟨a', hshape, hjets, hstep⟩ := leads_plain hp options requests (i := i) ha hvalid
    hadmits hn hrows hbound
  refine ⟨a', hshape, hjets, ?_, ?_⟩
  · intro stop hstop
    cases hstop
  · intro _
    have hrow : ins.row + 1 = n + ins.op.resultCount := hvalid.placed.1
    have htrace : Leads (trace options p.order i ins) _ (.ok ()) _ :=
      leads_trace options none requests (hshape.fits ha) (by omega)
    simpa [Plan.replayItem] using reaches_next hnext (Program.holds_cons.mp hholds).1
      (hvalid.op_ne ins List.mem_cons_self).2.2 hstep htrace

/-- A block whose frame cannot be made stops the replay at its opening marker. -/
theorem brings_refused (hb : b.Valid n p.params.size p.registry.size)
    (hholds : P.Holds i b.instrs) (hnext : Cursor.next P p.mask i₀ = .ok i)
    {operator : Operator F} (hop : p.operator? b = some operator)
    (hsite : CallSite.ofArgs p.registry b.opening.args = .ok (b.site operator)) {f : Fault}
    (hnew : Frame.new (b.site operator) p.order a.layout.directions = .error f) :
    Brings P p options requests a (p.replayItem a.layout.directions (.call b) a.jet) i₀
      (i + b.instrs.length) := by
  have hopen : p.openFault? a.layout.directions (.call b) = some f := by
    simp only [Plan.openFault?, hop, hnew]
  have hsplit : b.instrs = b.opening :: (b.args ++ b.results ++ [b.closing]) := rfl
  rw [hsplit] at hholds
  rw [Plan.replayItem_of_openFault hopen]
  refine ⟨a, .refl a, fun _ _ => rfl, ?_, ?_⟩
  · rintro stop ⟨⟩
    apply leads_replayFrom_error hnext (Program.holds_cons.mp hholds).1 (by simp [hb.opens])
    rw [step_marker hp options hb.opens, Array.append_empty]
    exact (leads_ok hsite).bind (leads_open_fault options requests hnew)
  · intro hnone
    cases hnone

/-- A block whose frame can be made. -/
theorem brings_block (ha : a.Fits rows p.order) (hb : b.Valid n p.params.size p.registry.size)
    (hn : 0 < n) (hrows : n + rowCount b.instrs ≤ rows) (hholds : P.Holds i b.instrs)
    (hmask : ∀ k < b.instrs.length, p.mask[i + k]? = some false)
    (hnext : Cursor.next P p.mask i₀ = .ok i)
    {operator : Operator F} (hop : p.operator? b = some operator)
    (hsite : CallSite.ofArgs p.registry b.opening.args = .ok (b.site operator)) {f : Frame F}
    (hnew : Frame.new (b.site operator) p.order a.layout.directions = .ok f) :
    Brings P p options requests a (p.replayItem a.layout.directions (.call b) a.jet) i₀
      (i + b.instrs.length) := by
  have hresultRows : ∀ ins ∈ b.results, Plan.IsResult rows ins := by
    intro ins hins
    rcases hb.results ins hins with hvar | ⟨_, _, hpar, _⟩
    · have hbounds := hb.row_of_result hins hvar
      exact Or.inl ⟨hvar, by omega, by omega⟩
    · exact Or.inr hpar
  have hopen : p.openFault? a.layout.directions (.call b) = none := by
    simp only [Plan.openFault?, hop, hnew]
  obtain ⟨a', hshape, hjets, hclose⟩ := leads_closeCall options
    (some (p.frame a b b.args b.results)) requests ha hopen hop hresultRows
  have hmarker {j : Nat} : Leads (step P p.order p.resolved options j b.closing)
      ⟨a, some (p.frame a b b.args b.results), requests⟩
      (ended (p.replayItem a.layout.directions (.call b) a.jet).stop)
      ⟨a', none,
        requests ++ (p.replayItem a.layout.directions (.call b) a.jet).requests.toArray⟩ := by
    rw [step_marker hp options hb.closes, hb.repeats]
    exact (leads_ok hsite).bind (leads_close options requests Plan.frame_phase_finished hclose)
  obtain ⟨j, hj, hclosing, hnext', hreaches⟩ :=
    reaches_closing hp options requests ha hb hn hrows hholds hmask hnext hsite hnew
  have hmarker' := hmarker (j := j)
  refine ⟨a', hshape, hjets, ?_, ?_⟩
  · intro stop hstop
    rw [hstop] at hmarker'
    exact hreaches.leads (leads_replayFrom_error hnext' hclosing (by simp [hb.closes]) hmarker')
  · intro hstop
    rw [hstop] at hmarker'
    have htrace : Leads (trace options p.order j b.closing) _ (.ok ()) _ :=
      leads_trace options none (requests ++
        (p.replayItem a.layout.directions (.call b) a.jet).requests.toArray) (hshape.fits ha)
        (Or.inl (by simp [hb.closes, Opcode.resultCount]))
    rw [← hj]
    exact hreaches.trans (reaches_next hnext' hclosing (by simp [hb.closes]) hmarker' htrace)

/-- An item that is not passed over. -/
theorem brings_item {item : Item} (ha : a.Fits rows p.order)
    (hitem : item.Valid n p.params.size p.resolved.size p.registry.size)
    (hserves : p.Serves item) (hn : 0 < n)
    (hrows : n + rowCount item.instrs ≤ rows) (hbound : rows ≤ Index.argBound)
    (hholds : P.Holds i item.instrs) (hmask : ∀ k < item.size, p.mask[i + k]? = some false)
    (hnext : Cursor.next P p.mask i₀ = .ok i) :
    Brings P p options requests a (p.replayItem a.layout.directions item a.jet) i₀
      (i + item.size) := by
  cases item with
  | plain ins =>
    simp only [Item.instrs, rowCount_cons, rowCount_nil, Nat.add_zero] at hrows
    exact brings_plain hp options requests ha hitem hserves.admits hn hrows hbound hholds hnext
  | call b =>
    obtain ⟨hargs, hresults⟩ := hserves.counted b rfl
    obtain ⟨operator, hop, hsite⟩ := Plan.exists_site hitem hargs hresults
    cases hnew : Frame.new (b.site operator) p.order a.layout.directions with
    | error f => exact brings_refused hp options requests hitem hholds hnext hop hsite hnew
    | ok f =>
      exact brings_block hp options requests ha hitem hn hrows hholds hmask hnext hop hsite hnew

end Replay

omit [Scalar F] in
theorem Plan.getElem?_of_marks {p : Plan F} {j : Nat} {m : Bool} (hj : j < p.mask.size)
    (hm : p.marks j = m) : p.mask[j]? = some m := by
  rw [← hm]
  simp [Plan.marks, hj]

namespace Replay

variable {P : Program F} {p : Plan F} (options : Options)

/-- The replay of the items from index `i` up to the `stop`. -/
theorem leads_items (hp : p.For P) {rows : Nat} (hbound : rows ≤ Index.argBound)
    (hmaskBound : p.mask.size ≤ Index.bound) {stop : Instr} (hstop : stop.op = .stop)
    {items : List Item} {n i i₀ : Nat} {a : Arena F} (requests : Array (Request F))
    (ha : a.Fits rows p.order)
    (hitems : ValidItems p.params.size p.resolved.size p.registry.size n items)
    (hserves : ∀ item ∈ items, p.Serves item) (hn : 0 < n)
    (hrows : n + rowCount (instrsOf items) ≤ rows)
    (hholds : P.Holds i (instrsOf items ++ [stop]))
    (hconsistent : Consistent p.mask i items)
    (hsize : i + (instrsOf items).length < p.mask.size)
    (hlast : p.marks (i + (instrsOf items).length) = false)
    (hnext : Cursor.next P p.mask i₀ = Cursor.next P p.mask i) :
    let out := p.replayItems a.layout.directions i items a.jet
    ∃ a', SameShape a a' ∧ (∀ l < a.layout.directions, a'.jet l = out.jets l) ∧
      Leads (replayFrom P p.order p.mask p.resolved options i₀) ⟨a, none, requests⟩
        (ended out.stop) ⟨a', none, requests ++ out.requests.toArray⟩ := by
  induction items generalizing n i i₀ a requests with
  | nil =>
    intro out
    have hunmarked := Cursor.next_of_unmarked (p := P)
      (Plan.getElem?_of_marks (by simpa using hsize) hlast)
    refine ⟨a, .refl a, fun _ _ => rfl, ?_⟩
    have hins := (Program.holds_cons.mp hholds).1
    have hout : requests ++ out.requests.toArray = requests := by simp [out, Plan.replayItems]
    rw [hout]
    exact leads_replayFrom_stop (hnext.trans hunmarked) hins hstop rfl
  | cons item rest ih =>
    obtain ⟨hitem, hrest⟩ := hitems
    obtain ⟨hsame, hconsistent⟩ := hconsistent
    have hserve := hserves item List.mem_cons_self
    have hserves' : ∀ item ∈ rest, p.Serves item :=
      fun i hi => hserves i (List.mem_cons_of_mem item hi)
    have hpos : 0 < item.size := List.length_pos_iff.mpr item.instrs_ne_nil
    have hlen : (instrsOf (item :: rest)).length = item.size + (instrsOf rest).length := by
      simp [Item.size]
    have hcount : rowCount (instrsOf (item :: rest)) =
        rowCount item.instrs + rowCount (instrsOf rest) := by simp
    rw [hlen] at hsize hlast
    rw [instrsOf_cons, List.append_assoc] at hholds
    obtain ⟨hholds, hholdsRest⟩ := Program.holds_append.mp hholds
    have hlast' : p.marks (i + item.size + (instrsOf rest).length) = false := by
      rwa [Nat.add_assoc]
    intro out
    by_cases hmark : p.marks i = true
    · have hpass := next_of_marked_item (bracketed_of_valid hp hitem hserve.counted) hholds
        (by omega) hmaskBound (Plan.getElem?_of_marks (by omega) hmark)
      have hout : out = _ := Plan.replayItems_marked hmark
      rw [hout]
      exact ih (i := i + item.size) requests ha hrest hserves' (by omega) (by omega) hholdsRest
        hconsistent (by omega) hlast' (hnext.trans hpass)
    · rw [Bool.not_eq_true] at hmark
      have hunmarked : ∀ k < item.size, p.mask[i + k]? = some false := fun k hk =>
        Plan.getElem?_of_marks (by omega) (hsame hmark k hk)
      have hcursor := Cursor.next_of_unmarked (p := P) (hunmarked 0 hpos)
      obtain ⟨a₁, hshape, hjets, herror, hgo⟩ := brings_item hp options requests ha hitem
        hserve hn (by omega) hbound hholds hunmarked (hnext.trans hcursor)
      cases hfirst : (p.replayItem a.layout.directions item a.jet).stop with
      | some stop' =>
        have hout : out = _ := Plan.replayItems_stopped hmark hfirst
        rw [hout, hfirst]
        exact ⟨a₁, hshape, hjets, herror stop' hfirst⟩
      | none =>
        obtain ⟨hstop', hrequests', hjets'⟩ := Plan.replayItems_of_eq (i + item.size) rest
          hjets
        have hdirections : a₁.layout.directions = a.layout.directions := by rw [hshape.layout]
        obtain ⟨a₂, hshape₂, hjets₂, hleads⟩ := ih (i := i + item.size) (requests ++
            (p.replayItem a.layout.directions item a.jet).requests.toArray) (hshape.fits ha) hrest
          hserves' (by omega) (by omega) hholdsRest hconsistent (by omega) hlast' rfl
        rw [hdirections] at hjets₂ hleads
        have hout : out = _ := Plan.replayItems_went_on hmark hfirst
        rw [hout]
        refine ⟨a₂, hshape.trans hshape₂, ?_, ?_⟩
        · intro l hl
          rw [hjets₂ l hl]
          exact hjets' l hl
        · apply (hgo hfirst).leads
          rw [hstop', hrequests'] at hleads
          simpa using hleads

end Replay

end JetTape
