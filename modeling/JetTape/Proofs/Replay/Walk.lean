import JetTape.Proofs.Replay.Blocks
import JetTape.Proofs.Replay.Stations

/-!
The replay of a program. Where the cursor comes to stand decides what happens next, so the replay
goes item by item: marked items are passed over as a whole, and an unmarked item is replayed as
`Plan.replayItem` says.
-/
namespace JetTape

open Arena (Fits SameShape)
open Call (Frame)

variable {F : Type}

/-- The program has the listed instructions from index `i` on. -/
def Program.Holds (P : Program F) (i : Nat) (l : List Instr) : Prop :=
  ∀ k (hk : k < l.length), P.instr (i + k) = .ok l[k]

theorem Program.holds_append {P : Program F} {i : Nat} {l l' : List Instr} :
    P.Holds i (l ++ l') ↔ P.Holds i l ∧ P.Holds (i + l.length) l' := by
  constructor
  · intro h
    constructor
    · intro k hk
      rw [h k (by simp; omega), List.getElem_append_left hk]
    · intro k hk
      rw [Nat.add_assoc, h (l.length + k) (by simp; omega), List.getElem_append_right (by omega)]
      simp
  · rintro ⟨h, h'⟩ k hk
    rw [List.length_append] at hk
    by_cases hlt : k < l.length
    · rw [List.getElem_append_left hlt, h k hlt]
    · rw [List.getElem_append_right (by omega), ← h' (k - l.length) (by omega)]
      congr 1
      omega

theorem Program.holds_cons {P : Program F} {i : Nat} {ins : Instr} {l : List Instr} :
    P.Holds i (ins :: l) ↔ P.instr i = .ok ins ∧ P.Holds (i + 1) l := by
  have h : P.Holds i ([ins] ++ l) ↔ P.Holds i [ins] ∧ P.Holds (i + 1) l := holds_append
  rw [List.singleton_append] at h
  rw [h]
  refine and_congr_left fun _ => ⟨fun h => h 0 (by simp), ?_⟩
  intro h k hk
  rw [List.length_singleton] at hk
  obtain rfl : k = 0 := by omega
  exact h

/-- A call block of the program whose markers are matched: they can be read, the opening one counts
the instructions between them, and there is no other marker there. -/
structure Block.Bracketed (P : Program F) (b : Block) : Prop where
  opens : b.opening.op = .callMarker
  closes : b.closing.op = .callMarker
  inside : ∀ ins ∈ b.args ++ b.results, ins.op ≠ .callMarker
  counts : ∃ site, P.callSite b.opening.args = .ok site ∧ site.argCount = b.args.length ∧
    site.resultCount = b.results.length
  closing_reads : ∃ site, P.callSite b.closing.args = .ok site

/-- An instruction other than a marker, or a block with matched markers. -/
def Item.Bracketed (P : Program F) : Item → Prop
  | plain ins => ins.op ≠ .callMarker
  | call b => b.Bracketed P

/-- The cursor passes over a marked item as a whole. -/
theorem next_of_marked_item {P : Program F} {mask : Array Bool} {item : Item} {i : Nat}
    (hitem : item.Bracketed P) (hholds : P.Holds i item.instrs)
    (hsize : i + item.size ≤ mask.size) (hbound : mask.size ≤ Index.bound)
    (hmark : mask[i]? = some true) :
    Cursor.next P mask i = Cursor.next P mask (i + item.size) := by
  apply Cursor.next_of_marked hmark
  cases item with
  | plain ins =>
    have hins := (Program.holds_cons.mp hholds).1
    have hop : ins.op ≠ .callMarker := hitem
    unfold Cursor.pass
    rw [hins]
    simp [bind, Except.bind, hop, Item.size, Item.instrs, pure, Except.pure]
  | call b =>
    have hb : b.Bracketed P := hitem
    obtain ⟨site, hsite, hargCount, hresultCount⟩ := hb.counts
    have hlen : b.instrs.length = b.args.length + b.results.length + 2 := by
      simp [Block.instrs]
      omega
    have hsize' : (Item.call b).size = b.args.length + b.results.length + 2 := hlen
    have hopening : P.instr i = .ok b.opening := hholds 0 (by simp [Item.instrs, Block.instrs])
    have hclosing : P.instr (i + (b.args.length + b.results.length + 1)) = .ok b.closing := by
      have hsplit : b.instrs = (b.opening :: b.args ++ b.results) ++ [b.closing] := rfl
      have hholds' : P.Holds i b.instrs := hholds
      rw [hsplit] at hholds'
      have := (Program.holds_cons.mp (Program.holds_append.mp hholds').2).1
      simpa [Nat.add_right_comm] using this
    simp only [Cursor.pass, bind_eq_ok_iff]
    refine ⟨b.opening, hopening, ?_⟩
    rw [if_pos hb.opens]
    simp only [bind_eq_ok_iff, Index.add_eq_ok_iff, require_eq_ok_iff]
    refine ⟨site, hsite, _, ⟨by omega, rfl⟩, _, ⟨by omega, rfl⟩, _, ⟨by omega, rfl⟩, (), by omega,
      b.closing, ?_, (), hb.closes, ?_⟩
    · rw [hargCount, hresultCount]
      exact hclosing
    · rw [hargCount, hresultCount, hsize']
      rfl

/-- A mask that marks nothing in an item whose first instruction it leaves unmarked. -/
def Consistent (mask : Array Bool) : Nat → List Item → Prop
  | _, [] => True
  | i, item :: rest =>
    (mask.getD i false = false → ∀ k < item.size, mask.getD (i + k) false = false) ∧
      Consistent mask (i + item.size) rest

/-- Whether a mask is consistent with items is settled by what it marks from their first to their
last instruction. -/
theorem Consistent.of_append {mask mask' : Array Bool} {i : Nat} {items items' : List Item}
    (h : Consistent mask i (items ++ items'))
    (hsame : ∀ k < (instrsOf items).length, mask'.getD (i + k) false = mask.getD (i + k) false) :
    Consistent mask' i items := by
  induction items generalizing i with
  | nil => trivial
  | cons item rest ih =>
    obtain ⟨hitem, hrest⟩ := h
    rw [instrsOf_cons, List.length_append] at hsame
    have hpos : 0 < item.size := List.length_pos_iff.mpr item.instrs_ne_nil
    have hhere : ∀ k < item.size, mask'.getD (i + k) false = mask.getD (i + k) false :=
      fun k hk => hsame k (Nat.lt_add_right _ hk)
    refine ⟨?_, ih hrest fun k hk => ?_⟩
    · intro hfirst k hk
      have hfirst' := hhere 0 hpos
      rw [Nat.add_zero, hfirst] at hfirst'
      rw [hhere k hk]
      exact hitem hfirst'.symm k hk
    · rw [Nat.add_assoc]
      exact hsame (item.size + k) (Nat.add_lt_add_left hk _)

/-- The plan knows the parameters and the operators of the program. -/
structure Plan.For (p : Plan F) (P : Program F) : Prop where
  params : P.params = p.params
  callSite : P.callSite = CallSite.ofArgs p.registry

variable [Scalar F]

namespace Replay

variable {P : Program F} {q : Nat} {mask : Array Bool} {resolved : Array Nat} {options : Options}
variable {i i₀ j : Nat} {ins : Instr} {c c' c'' : Core F} {out : Except Stop Unit}

variable (P q mask resolved options) in
/-- A replay that goes on at instruction `i` with core `c` comes to go on at instruction `j` with
core `c'`. -/
def Reaches (i : Nat) (c : Core F) (j : Nat) (c' : Core F) : Prop :=
  ∀ s : ReplayState F, s.core = c → ∃ s', replayFrom P q mask resolved options i s =
    replayFrom P q mask resolved options j s' ∧ s'.core = c'

namespace Reaches

theorem refl : Reaches P q mask resolved options i c i c := fun s hs => ⟨s, rfl, hs⟩

theorem trans (h : Reaches P q mask resolved options i₀ c i c')
    (h' : Reaches P q mask resolved options i c' j c'') :
    Reaches P q mask resolved options i₀ c j c'' := by
  intro s hs
  obtain ⟨s', hrun, hs'⟩ := h s hs
  obtain ⟨s'', hrun', hs''⟩ := h' s' hs'
  exact ⟨s'', hrun.trans hrun', hs''⟩

/-- A replay ends as the replay does that it comes to. -/
theorem leads (h : Reaches P q mask resolved options i c j c')
    (hrest : Leads (replayFrom P q mask resolved options j) c' out c'') :
    Leads (replayFrom P q mask resolved options i) c out c'' := by
  intro s hs
  obtain ⟨s', hrun, hs'⟩ := h s hs
  rw [hrun]
  exact hrest s' hs'

end Reaches

/-- A step that comes out well is followed by the next instruction. -/
theorem reaches_next (hnext : Cursor.next P mask i₀ = .ok i) (hins : P.instr i = .ok ins)
    (hop : ins.op ≠ .stop) (hstep : Leads (step P q resolved options i ins) c (.ok ()) c')
    (htrace : Leads (trace options q i ins) c' (.ok ()) c') :
    Reaches P q mask resolved options i₀ c (i + 1) c' := by
  intro s hs
  obtain ⟨events, hskipped⟩ := reportSkipped_eq options i₀ i s
  obtain ⟨s₁, hstep, hs₁⟩ := hstep { s with events } hs
  obtain ⟨s₂, htrace, hs₂⟩ := htrace s₁ hs₁
  have hread : (liftM (P.instr i) : Replay F Instr) { s with events } =
      .ok ins { s with events } := by
    rw [hins]
    rfl
  refine ⟨s₂, ?_, hs₂⟩
  rw [replayFrom_eq hnext, bind_of_ok hskipped, bind_of_ok hread, if_neg hop, bind_of_ok hstep,
    bind_of_ok htrace]

theorem leads_replayFrom_error {stop : Stop} (hnext : Cursor.next P mask i₀ = .ok i)
    (hins : P.instr i = .ok ins) (hop : ins.op ≠ .stop)
    (hstep : Leads (step P q resolved options i ins) c (.error stop) c') :
    Leads (replayFrom P q mask resolved options i₀) c (.error stop) c' := by
  rw [replayFrom_eq hnext]
  apply (leads_reportSkipped options i₀ i).bind
  apply (leads_ok hins).bind
  rw [if_neg hop]
  exact hstep.bind_error

theorem leads_replayFrom_stop (hnext : Cursor.next P mask i₀ = .ok i)
    (hins : P.instr i = .ok ins) (hop : ins.op = .stop) (hframe : c.frame = none) :
    Leads (replayFrom P q mask resolved options i₀) c (.ok ()) c := by
  rw [replayFrom_eq hnext]
  apply (leads_reportSkipped options i₀ i).bind
  apply (leads_ok hins).bind
  rw [if_pos hop]
  apply Leads.get
  intro s hs
  have : s.frame = none := by rw [← hframe, ← hs]; rfl
  rw [this]
  exact leads_require rfl

/-- A run of unmarked instructions, each of which takes one core to the next. -/
theorem reaches_walk {l : List Instr} (cs : Nat → Core F) (hholds : P.Holds i l)
    (hmask : ∀ k < l.length, mask[i + k]? = some false) (hop : ∀ ins ∈ l, ins.op ≠ .stop)
    (hstep : ∀ k (hk : k < l.length),
      Leads (step P q resolved options (i + k) l[k]) (cs k) (.ok ()) (cs (k + 1)))
    (htrace : ∀ k (hk : k < l.length),
      Leads (trace options q (i + k) l[k]) (cs (k + 1)) (.ok ()) (cs (k + 1))) :
    Reaches P q mask resolved options i (cs 0) (i + l.length) (cs l.length) := by
  induction l generalizing i cs with
  | nil => exact Reaches.refl
  | cons ins l ih =>
    obtain ⟨hins, hholds⟩ := Program.holds_cons.mp hholds
    have hshift (k : Nat) : i + 1 + k = i + (k + 1) := by omega
    have hfirst := reaches_next (Cursor.next_of_unmarked (hmask 0 (by simp))) hins
      (hop ins List.mem_cons_self) (hstep 0 (by simp)) (htrace 0 (by simp))
    have hrest := ih (fun k => cs (k + 1)) hholds
      (fun k hk => hshift k ▸ hmask (k + 1) (by simpa using hk))
      (fun i hi => hop i (List.mem_cons_of_mem ins hi))
      (fun k hk => hshift k ▸ hstep (k + 1) (by simpa using hk))
      (fun k hk => hshift k ▸ htrace (k + 1) (by simpa using hk))
    rw [hshift] at hrest
    exact hfirst.trans hrest

end Replay

end JetTape
