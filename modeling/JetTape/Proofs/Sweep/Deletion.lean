import JetTape.Proofs.Replay.Alike
import JetTape.Proofs.Replay.Writes
import JetTape.Proofs.Sweep.Run

/-!
Skipping is deleting. The sweep of a program with a mask does what the sweep of the program does
that is left when the marked instructions and the marked blocks are taken out, for any program whose
markers are matched. The two replays come to the same instructions in the same order, at other
indices, and a step does not look at its index.
-/
namespace JetTape

variable {F : Type}

/-- The items that a mask leaves: those whose first instruction is unmarked. -/
def kept (mask : Array Bool) : Nat → List Item → List Item
  | _, [] => []
  | i, item :: rest =>
    if mask.getD i false then kept mask (i + item.size) rest
    else item :: kept mask (i + item.size) rest

/-- A program with other instructions, its tables as they are. -/
def Program.withInstrs (P : Program F) (l : List Instr) : Program F :=
  { P with instrCount := l.length, instr := fun i => Index.get l.toArray i }

theorem Program.withInstrs_holds (P : Program F) (l : List Instr) :
    (P.withInstrs l).Holds 0 l := by
  intro k hk
  rw [Nat.zero_add]
  simp [withInstrs, Index.get, hk]

namespace Replay

variable [Scalar F] {P P' : Program F} {q : Nat} {mask mask' : Array Bool} {resolved : Array Nat}
  {options : Options} {i i' : Nat}

/-- The instructions that a replay comes to, each with the core of the state that it is found in. -/
def dispatched (P : Program F) (list : List (Nat × ReplayState F)) :
    List (Except Fault Instr × Core F) :=
  list.map fun station => (P.instr station.1, station.2.core)

variable (P P' q mask mask' resolved options) in
/-- From wherever the cursor comes to stand as it does from `i` and from `i'`, the two replays are
alike and come to the same instructions. -/
def AlikeAt (i i' : Nat) : Prop :=
  ∀ i₀ i₀', Cursor.next P mask i₀ = Cursor.next P mask i →
    Cursor.next P' mask' i₀' = Cursor.next P' mask' i' →
    Alike (replayFrom P q mask resolved options i₀) (replayFrom P' q mask' resolved options i₀') ∧
      ∀ s s' : ReplayState F, s.core = s'.core →
        dispatched P (stationsFrom P q mask resolved options i₀ s) =
          dispatched P' (stationsFrom P' q mask' resolved options i₀' s')

/-- One instruction that both programs have and neither mask marks. -/
theorem alikeAt_next {ins : Instr} (hparams : P'.params = P.params)
    (hcallSite : P'.callSite = P.callSite) (hmask : mask[i]? = some false)
    (hmask' : mask'[i']? = some false) (hins : P.instr i = .ok ins) (hins' : P'.instr i' = .ok ins)
    (hrest : AlikeAt P P' q mask mask' resolved options (i + 1) (i' + 1)) :
    AlikeAt P P' q mask mask' resolved options i i' := by
  intro i₀ i₀' hnext hnext'
  rw [Cursor.next_of_unmarked hmask] at hnext
  rw [Cursor.next_of_unmarked hmask'] at hnext'
  obtain ⟨hreplays, hdispatched⟩ := hrest _ _ rfl rfl
  constructor
  · rw [replayFrom_eq hnext, replayFrom_eq hnext', hins, hins']
    have hskipped : Alike (reportSkipped options i₀ i : Replay F Unit)
        (reportSkipped options i₀' i') :=
      fun _ => Alike.of_leads (leads_reportSkipped options i₀ i)
        (leads_reportSkipped options i₀' i')
    refine hskipped.bind fun _ => (Alike.ok _).bind fun ins => ?_
    by_cases hop : ins.op = .stop
    · rw [if_pos hop, if_pos hop]
      exact alike_checkClosed
    · rw [if_neg hop, if_neg hop]
      exact (alike_step hparams hcallSite).bind fun _ => alike_trace.bind fun _ => hreplays
  · intro s s' hs
    obtain ⟨events, hskipped⟩ := reportSkipped_eq options i₀ i s
    obtain ⟨events', hskipped'⟩ := reportSkipped_eq options i₀' i' s'
    have hcore : ({ s with events } : ReplayState F).core =
        ({ s' with events := events' } : ReplayState F).core := hs
    rw [stationsFrom_eq hnext hskipped, stationsFrom_eq hnext' hskipped', hins, hins']
    simp only [dispatched, List.map_cons, hins, hins', hcore, List.cons.injEq, true_and]
    by_cases hop : ins.op = .stop
    · rw [if_pos hop, if_pos hop]
      rfl
    · rw [if_neg hop, if_neg hop]
      rcases (alike_stepAt hparams hcallSite).cases hcore with
        ⟨_, s₁, s₁', hstep, hstep', hs₁⟩ | ⟨_, _, _, _, hstep, hstep'⟩
      · rw [hstep, hstep']
        exact hdispatched s₁ s₁' hs₁
      · rw [hstep, hstep']
        rfl

/-- A run of instructions that both programs have and neither mask marks. -/
theorem alikeAt_walk {l : List Instr} (hparams : P'.params = P.params)
    (hcallSite : P'.callSite = P.callSite) (hmask : ∀ k < l.length, mask[i + k]? = some false)
    (hmask' : ∀ k < l.length, mask'[i' + k]? = some false) (hholds : P.Holds i l)
    (hholds' : P'.Holds i' l)
    (hrest : AlikeAt P P' q mask mask' resolved options (i + l.length) (i' + l.length)) :
    AlikeAt P P' q mask mask' resolved options i i' := by
  induction l generalizing i i' with
  | nil => exact hrest
  | cons ins l ih =>
    obtain ⟨hins, hholds⟩ := Program.holds_cons.mp hholds
    obtain ⟨hins', hholds'⟩ := Program.holds_cons.mp hholds'
    have hshift (i k : Nat) : i + (k + 1) = i + 1 + k := by omega
    refine alikeAt_next hparams hcallSite (hmask 0 (by simp)) (hmask' 0 (by simp)) hins hins' ?_
    refine ih ?_ ?_ hholds hholds' ?_
    · exact fun k hk => hshift i k ▸ hmask (k + 1) (by simpa using hk)
    · exact fun k hk => hshift i' k ▸ hmask' (k + 1) (by simpa using hk)
    · rwa [List.length_cons, hshift i l.length, hshift i' l.length] at hrest

/-- The replay of items and the replay of those that are kept, where nothing is marked. -/
theorem alikeAt_items {items : List Item} (hparams : P'.params = P.params)
    (hcallSite : P'.callSite = P.callSite) (hbracketed : ∀ item ∈ items, item.Bracketed P)
    (hholds : P.Holds i (instrsOf items)) (hholds' : P'.Holds i' (instrsOf (kept mask i items)))
    (hconsistent : Consistent mask i items) (hsize : mask.size = i + (instrsOf items).length)
    (hbound : mask.size ≤ Index.bound)
    (hmask' : mask' = Array.replicate (i' + (instrsOf (kept mask i items)).length) false) :
    AlikeAt P P' q mask mask' resolved options i i' := by
  induction items generalizing i i' with
  | nil =>
    intro i₀ i₀' hnext hnext'
    have hend : Cursor.next P mask i = .error (.skippedPastEnd i) := by
      rw [Cursor.next, dif_neg (by simp [hsize])]
    have hend' : Cursor.next P' mask' i' = .error (.skippedPastEnd i') := by
      rw [Cursor.next, dif_neg (by simp [hmask', kept])]
    constructor
    · rw [replayFrom_of_error (hnext.trans hend), replayFrom_of_error (hnext'.trans hend')]
      exact .fault _ _
    · intro s s' _
      rw [stationsFrom_of_error (hnext.trans hend), stationsFrom_of_error (hnext'.trans hend')]
      rfl
  | cons item rest ih =>
    obtain ⟨hwhole, hconsistent⟩ := hconsistent
    have hrest : ∀ item ∈ rest, item.Bracketed P :=
      fun i hi => hbracketed i (List.mem_cons_of_mem _ hi)
    have hlen : (instrsOf (item :: rest)).length = item.size + (instrsOf rest).length := by
      simp [Item.size]
    rw [instrsOf_cons] at hholds
    obtain ⟨hhere, hthere⟩ := Program.holds_append.mp hholds
    rw [hlen, ← Nat.add_assoc] at hsize
    by_cases hmark : mask.getD i false = true
    · rw [kept, if_pos hmark] at hholds' hmask'
      have hpos : 0 < item.size := List.length_pos_iff.mpr item.instrs_ne_nil
      have hmarked : mask[i]? = some true := by
        have hlt : i < mask.size := by omega
        simpa [Array.getD, hlt] using hmark
      have hpass := next_of_marked_item (hbracketed item List.mem_cons_self) hhere (by omega) hbound
        hmarked
      intro i₀ i₀' hnext
      exact ih hrest hthere hholds' hconsistent hsize hmask' i₀ i₀' (hnext.trans hpass)
    · rw [kept, if_neg hmark, instrsOf_cons] at hholds' hmask'
      obtain ⟨hhere', hthere'⟩ := Program.holds_append.mp hholds'
      refine alikeAt_walk hparams hcallSite ?_ ?_ hhere hhere' ?_
      · intro k hk
        have hk : k < item.size := hk
        have hlt : i + k < mask.size := by omega
        have hunmarked := hwhole (by simpa using hmark) k hk
        simpa [Array.getD, hlt] using hunmarked
      · intro k hk
        rw [hmask', Array.getElem?_replicate, if_pos]
        rw [List.length_append]
        omega
      · refine ih hrest hthere hthere' hconsistent hsize ?_
        rw [hmask', List.length_append, ← Nat.add_assoc]
        rfl

omit [Scalar F] in
theorem each_congr {m : Type → Type} [Monad m] {n : Nat} {body body' : Nat → m Unit}
    (h : ∀ k, i ≤ k → k < i + n → body k = body' k) : Loop.each n i body = Loop.each n i body' := by
  induction n generalizing i with
  | zero => rfl
  | succ n ih =>
    unfold Loop.each
    rw [h i (Nat.le_refl i) (by omega), ih fun k hk hlt => h k (by omega) (by omega)]

omit [Scalar F] in
/-- Programs with one head pass or fail its check together. -/
theorem checkHead_congr (hcount : P'.independentCount = P.independentCount)
    (h : ∀ k ≤ P.independentCount, P'.instr k = P.instr k) : checkHead P' = checkHead P := by
  unfold checkHead
  rw [hcount, h 0 (Nat.zero_le _)]
  congr 1
  funext _
  congr 1
  funext _
  refine each_congr fun k _ hk => ?_
  rw [h k (by omega)]

omit [Scalar F] in
/-- Alike replays run alike. -/
theorem Alike.run {m m' : Replay F Unit} (h : Alike m m') (a : Arena F) :
    (m.run a).cells = (m'.run a).cells ∧ (m.run a).requests = (m'.run a).requests ∧
      ((m.run a).stop = (m'.run a).stop ∨
        ∃ f f', (m.run a).stop = some (.fault f) ∧ (m'.run a).stop = some (.fault f')) := by
  obtain ⟨out, out', c, hleads, hleads', hsame⟩ := h ⟨a, none, #[]⟩
  have hended (out : Except Stop Unit) : ∃ stop, out = ended stop := by
    cases out with
    | ok _ => exact ⟨none, rfl⟩
    | error stop => exact ⟨some stop, rfl⟩
  obtain ⟨stop, rfl⟩ := hended out
  obtain ⟨stop', rfl⟩ := hended out'
  obtain ⟨hstop, hcells, hrequests⟩ := run_of_leads hleads
  obtain ⟨hstop', hcells', hrequests'⟩ := run_of_leads hleads'
  refine ⟨hcells.trans hcells'.symm, hrequests.trans hrequests'.symm, ?_⟩
  rw [hstop, hstop']
  rcases hsame with hsame | ⟨f, f', hf, hf'⟩
  · cases stop <;> cases stop' <;> cases hsame <;> exact Or.inl rfl
  · cases stop <;> cases hf
    cases stop' <;> cases hf'
    exact Or.inr ⟨f, f', rfl, rfl⟩

section Programs

variable {head : List Instr} {items : List Item}

omit [Scalar F] in
/-- Programs of one head begin their sweeps alike. -/
theorem alike_sweepHead (hindependents : P'.independentCount = P.independentCount)
    (hinstrs : ∀ k ≤ P.independentCount, P'.instr k = P.instr k)
    (hrows : P'.rowCount = P.rowCount) (hloads : P'.loadCount = P.loadCount)
    (hmask : mask.size = P.instrCount) (hmask' : mask'.size = P'.instrCount) :
    Alike (sweepHead P q mask resolved options) (sweepHead P' q mask' resolved options) := by
  have hshapes (a : Arena F) :
      checkShapes P' q mask' resolved a = checkShapes P q mask resolved a :=
    checkShapes_congr hrows hloads hmask hmask'
  refine .get (fun s s' hs => ?_) fun s => ?_
  · have harena : s.arena = s'.arena := congrArg Core.arena hs
    simp only [harena, and_self]
  · dsimp only
    rw [hshapes, checkHead_congr hindependents hinstrs, hindependents]
    exact (Alike.ok _).bind fun _ => (Alike.ok _).bind fun _ => (Alike.report options _ _).bind
      fun _ => (Alike.ok _).bind fun _ => (Alike.setFrame none).bind fun _ => .ok _

omit [Scalar F] in
/-- A sweep begins its replay after the independents. -/
theorem eq_of_sweepHead {s s' : ReplayState F}
    (h : sweepHead P q mask resolved options s = .ok i s') : i = P.independentCount + 1 := by
  have hends : Ends (sweepHead P q mask resolved options) s
      (fun i _ => i = P.independentCount + 1) fun _ => True := by
    refine .get (.ok_bind trivial fun _ _ => .ok_bind trivial fun _ _ => .report fun _ => ?_)
    refine .ok_bind trivial fun _ _ => ?_
    refine Ends.bind (Q := fun _ _ => True) trivial fun _ _ _ => ?_
    exact .ok (fun i hi => (Index.add_eq_ok_iff.mp hi).2) trivial
  unfold Ends at hends
  rwa [h] at hends

/-- A sweep that skips and the sweep of the program that is left. -/
theorem alike_sweep (hhead : head.length = P.independentCount + 1)
    (hholds : P.Holds 0 (head ++ instrsOf items))
    (hcount : P.instrCount = head.length + (instrsOf items).length)
    (hbound : P.instrCount ≤ Index.bound) (hbracketed : ∀ item ∈ items, item.Bracketed P)
    (hmask : mask.size = P.instrCount) (hconsistent : Consistent mask head.length items)
    (hP' : P' = P.withInstrs (head ++ instrsOf (kept mask head.length items)))
    (hmask' : mask' = Array.replicate P'.instrCount false) :
    Alike (sweepHead P q mask resolved options) (sweepHead P' q mask' resolved options) ∧
      AlikeAt P P' q mask mask' resolved options head.length head.length := by
  have hparams : P'.params = P.params := by rw [hP']; rfl
  have hcallSite : P'.callSite = P.callSite := by rw [hP']; rfl
  have hcount' : P'.instrCount =
      head.length + (instrsOf (kept mask head.length items)).length := by
    rw [hP', ← List.length_append]
    rfl
  have hholds' : P'.Holds 0 (head ++ instrsOf (kept mask head.length items)) := by
    rw [hP']
    exact P.withInstrs_holds _
  obtain ⟨hhere, hthere⟩ := Program.holds_append.mp hholds
  obtain ⟨hhere', hthere'⟩ := Program.holds_append.mp hholds'
  rw [Nat.zero_add] at hthere hthere'
  have hinstrs : ∀ k ≤ P.independentCount, P'.instr k = P.instr k := by
    intro k hk
    have hget := hhere k (by omega)
    have hget' := hhere' k (by omega)
    rw [Nat.zero_add] at hget hget'
    rw [hget, hget']
  constructor
  · exact alike_sweepHead (by rw [hP']; rfl) hinstrs (by rw [hP']; rfl) (by rw [hP']; rfl) hmask
      (by rw [hmask', Array.size_replicate])
  · exact alikeAt_items hparams hcallSite hbracketed hthere hthere' hconsistent
      (hmask.trans hcount) (hmask ▸ hbound) (hcount' ▸ hmask')

/-- Skipping equals deleting. Let a program hold a head as long as its independents ask for and
after it items with matched markers, and let a mask mark nothing in a block whose opening marker it
leaves unmarked; what it marks in the head, or in a block with a marked opening marker, is
arbitrary. The sweep with the mask, and the sweep that marks nothing of the program whose marked
instructions and blocks are taken out, leave the same coefficients and make the same requests. They
stop alike unless both come to a fault. On the way they come to the same instructions in the same
states. -/
theorem sweep_deleted (P : Program F) (head : List Instr) (items : List Item) (mask : Array Bool)
    (hhead : head.length = P.independentCount + 1) (hholds : P.Holds 0 (head ++ instrsOf items))
    (hcount : P.instrCount = head.length + (instrsOf items).length)
    (hbound : P.instrCount ≤ Index.bound) (hbracketed : ∀ item ∈ items, item.Bracketed P)
    (hmask : mask.size = P.instrCount) (hconsistent : Consistent mask head.length items)
    (q : Nat) (resolved : Array Nat) (options : Options) (a : Arena F) :
    let P' := P.withInstrs (head ++ instrsOf (kept mask head.length items))
    let mask' := Array.replicate P'.instrCount false
    let run := (sweep P q mask resolved options).run a
    let run' := (sweep P' q mask' resolved options).run a
    run.cells = run'.cells ∧ run.requests = run'.requests ∧
      (run.stop = run'.stop ∨
        ∃ f f', run.stop = some (.fault f) ∧ run'.stop = some (.fault f')) ∧
      dispatched P (stations P q mask resolved options a) =
        dispatched P' (stations P' q mask' resolved options a) := by
  intro P' mask' run run'
  obtain ⟨hbegin, hreplay⟩ : Alike (sweepHead P q mask resolved options)
      (sweepHead P' q mask' resolved options) ∧
      AlikeAt P P' q mask mask' resolved options head.length head.length :=
    alike_sweep hhead hholds hcount hbound hbracketed hmask hconsistent rfl rfl
  have hsweep : Alike (sweep P q mask resolved options) (sweep P' q mask' resolved options) := by
    rw [sweep_eq, sweep_eq]
    refine hbegin.bind_of fun i s s' hi => ?_
    obtain rfl : i = head.length := hhead ▸ eq_of_sweepHead hi
    exact (hreplay _ _ rfl rfl).1
  obtain ⟨hcells, hrequests, hstop⟩ := hsweep.run a
  refine ⟨hcells, hrequests, hstop, ?_⟩
  unfold stations
  rcases hbegin.cases (Eq.refl (ReplayState.core { arena := a })) with
    ⟨i, s, s', hi, hi', hs⟩ | ⟨_, _, _, _, hi, hi'⟩
  · rw [hi, hi']
    obtain rfl : i = head.length := hhead ▸ eq_of_sweepHead hi
    exact (hreplay _ _ rfl rfl).2 s s' hs
  · rw [hi, hi']
    rfl

end Programs

/-- A block that passes row 1 to an operator and keeps the answer in another row. -/
def relay (row : Nat) : Block where
  opening := ⟨.callMarker, [0, 7, 1, 1], row - 1⟩
  args := [⟨.callArg .var, [1], row - 1⟩]
  results := [⟨.callResult .var, [], row⟩]
  closing := ⟨.callMarker, [0, 7, 1, 1], row⟩

def relayHead : List Instr := [⟨.start, [0], 0⟩, ⟨.independent, [], 1⟩]

def relayItems : List Item :=
  [.call (relay 2), .plain ⟨.arithmetic .addVV, [1, 1], 3⟩, .call (relay 4), .plain ⟨.stop, [], 4⟩]

/-- A program with a row, a block, a sum and another block. -/
def relayProgram : Program ℚ :=
  (Program.ofInstrs #[] 5 1 0 #[] #[.echo]).withInstrs (relayHead ++ instrsOf relayItems)

theorem relay_bracketed (row : Nat) : (relay row).Bracketed relayProgram where
  opens := rfl
  closes := rfl
  inside := by simp [relay]
  counts := ⟨⟨.echo, 7, 1, 1⟩, rfl, rfl, rfl⟩
  closing_reads := ⟨⟨.echo, 7, 1, 1⟩, rfl⟩

/-- A mask that marks the start, the first block and the sum. Its mark inside the block is of no
consequence. -/
def relayMask : Array Bool :=
  #[true, false, true, false, true, false, true, false, false, false, false, false]

/-- Only the second block is left, and both sweeps come to their end. -/
theorem relayProgram_sweep_deleted :
    let a : Arena ℚ := ⟨⟨3, 1⟩, #[0, 0, 0, 5, 1, 7, 10, 4, 9, 2, 3, 8, 6, 2, 4]⟩
    let P' := relayProgram.withInstrs
      (relayHead ++ instrsOf [.call (relay 4), .plain ⟨.stop, [], 4⟩])
    let mask' := Array.replicate P'.instrCount false
    let run := (sweep relayProgram 1 relayMask #[] {}).run a
    let run' := (sweep P' 1 mask' #[] {}).run a
    run.stop = none ∧ run.requests.size = 1 ∧ run.cells = run'.cells ∧
      run.requests = run'.requests ∧ (run.stop = run'.stop ∨
        ∃ f f', run.stop = some (.fault f) ∧ run'.stop = some (.fault f')) ∧
      dispatched relayProgram (stations relayProgram 1 relayMask #[] {} a) =
        dispatched P' (stations P' 1 mask' #[] {} a) := by
  intro a P' mask' run run'
  have hbracketed : ∀ item ∈ relayItems, item.Bracketed relayProgram := by
    simp [relayItems, Item.Bracketed, relay_bracketed]
  have hconsistent : Consistent relayMask 2 relayItems := by
    simp only [Consistent, relayItems, Item.size]
    decide
  refine ⟨by decide +kernel, by decide +kernel, ?_⟩
  exact sweep_deleted relayProgram relayHead relayItems relayMask rfl
    (Program.withInstrs_holds _ _) rfl (by decide) hbracketed rfl hconsistent 1 #[] {} a

end Replay

end JetTape
