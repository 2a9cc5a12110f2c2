import JetTape.Proofs.Replay.Reads
import JetTape.Proofs.Tape.Rewriting

/-!
Replays of rewritten items. Where a rule puts other items in the place of each item, and on jets of
some kind these do what the item does, the replays of all items have the same outcome. The kind of
the jets may change along the items: what an item leaves is what the next one can rely on.
-/
namespace JetTape

variable {F : Type}

/-- The outcomes have the same stop, the same requests, and the same jets along the first `r`
directions. -/
structure Outcome.AgreesBelow (r : Nat) (out out' : Outcome F) : Prop where
  stop : out'.stop = out.stop
  requests : out'.requests = out.requests
  jets : ∀ l < r, out'.jets l = out.jets l

/-- What is left by replays of which the second begins with the jets of the first, if that came to
its end. -/
def Outcome.andThen (first : Outcome F) (last : (Nat → Jet F) → Outcome F) : Outcome F :=
  match first.stop with
  | some _ => first
  | none => ⟨(last first.jets).stop, (last first.jets).jets,
    first.requests ++ (last first.jets).requests⟩

section Outcome

variable {r : Nat} {first first' : Outcome F} {last last' : (Nat → Jet F) → Outcome F}

theorem Outcome.AgreesBelow.trans {out out' out'' : Outcome F} (h : out.AgreesBelow r out')
    (h' : out'.AgreesBelow r out'') : out.AgreesBelow r out'' :=
  ⟨h'.stop.trans h.stop, h'.requests.trans h.requests,
    fun l hl => (h'.jets l hl).trans (h.jets l hl)⟩

theorem Outcome.andThen_of_none (h : first.stop = none) :
    first.andThen last = ⟨(last first.jets).stop, (last first.jets).jets,
      first.requests ++ (last first.jets).requests⟩ := by
  rw [andThen, h]

theorem Outcome.andThen_of_some {stop : Stop} (h : first.stop = some stop) :
    first.andThen last = first := by
  rw [andThen, h]

/-- Nothing after a replay. -/
theorem Outcome.andThen_nothing : first.andThen (fun js => ⟨none, js, []⟩) = first := by
  cases hstop : first.stop with
  | some stop => rw [andThen_of_some hstop]
  | none => rw [andThen_of_none hstop, List.append_nil, ← hstop]

theorem Outcome.andThen_assoc {later : (Nat → Jet F) → Outcome F} :
    (first.andThen last).andThen later = first.andThen fun js => (last js).andThen later := by
  cases hfirst : first.stop with
  | some stop =>
    rw [andThen_of_some hfirst, andThen_of_some hfirst, andThen_of_some hfirst]
  | none =>
    rw [andThen_of_none hfirst, andThen_of_none hfirst]
    cases hlast : (last first.jets).stop with
    | some stop => rw [andThen_of_some rfl, andThen_of_some hlast, hlast]
    | none =>
      rw [andThen_of_none rfl, andThen_of_none hlast]
      simp only [List.append_assoc]

theorem Outcome.AgreesBelow.andThen (h : first.AgreesBelow r first')
    (hlast : first.stop = none → (last first.jets).AgreesBelow r (last' first'.jets)) :
    (first.andThen last).AgreesBelow r (first'.andThen last') := by
  cases hstop : first.stop with
  | some stop =>
    rw [Outcome.andThen_of_some hstop, Outcome.andThen_of_some (h.stop.trans hstop)]
    exact h
  | none =>
    obtain ⟨hstop', hrequests, hjets⟩ := hlast hstop
    rw [Outcome.andThen_of_none hstop, Outcome.andThen_of_none (h.stop.trans hstop)]
    exact ⟨hstop', congrArg₂ _ h.requests hrequests, hjets⟩

end Outcome

namespace Plan

variable [Scalar F] {p p' : Plan F} {r : Nat}

section Unmarked

variable (hmarks : ∀ i, p.marks i = false)

include hmarks

/-- Without a mask it makes no difference at which index the items begin. -/
theorem replayItems_index (i i' : Nat) (items : List Item) (js : Nat → Jet F) :
    p.replayItems r i items js = p.replayItems r i' items js := by
  induction items generalizing i i' js with
  | nil => rfl
  | cons item rest ih =>
    cases hstop : (p.replayItem r item js).stop with
    | some stop => rw [replayItems_stopped (hmarks i) hstop, replayItems_stopped (hmarks i') hstop]
    | none =>
      rw [replayItems_went_on (hmarks i) hstop, replayItems_went_on (hmarks i') hstop,
        ih (i + item.size) (i' + item.size)]

theorem replayItems_cons (i : Nat) (item : Item) (rest : List Item) (js : Nat → Jet F) :
    p.replayItems r i (item :: rest) js =
      (p.replayItem r item js).andThen (p.replayItems r 0 rest) := by
  cases hstop : (p.replayItem r item js).stop with
  | some stop => rw [replayItems_stopped (hmarks i) hstop, Outcome.andThen_of_some hstop]
  | none =>
    rw [replayItems_went_on (hmarks i) hstop, Outcome.andThen_of_none hstop,
      replayItems_index hmarks (i + item.size) 0]

theorem replayItems_append_eq (i : Nat) (items items' : List Item) (js : Nat → Jet F) :
    p.replayItems r i (items ++ items') js =
      (p.replayItems r i items js).andThen (p.replayItems r 0 items') := by
  induction items generalizing i js with
  | nil => exact replayItems_index hmarks i 0 items' js
  | cons item rest ih =>
    rw [List.cons_append, replayItems_cons hmarks, replayItems_cons hmarks,
      Outcome.andThen_assoc]
    exact congrArg _ (funext (ih 0))

/-- Instructions outside call blocks advance the jets one after another. -/
theorem replayItems_plain (i : Nat) (l : List Instr) (js : Nat → Jet F) :
    p.replayItems r i (l.map .plain) js =
      ⟨none, fun d => l.foldl (fun j ins => p.advance (.plain ins) j) (js d), []⟩ := by
  induction l generalizing i js with
  | nil => rfl
  | cons ins l ih =>
    rw [List.map_cons, replayItems_cons hmarks, Outcome.andThen_of_none rfl, ih 0]
    rfl

end Unmarked

/-- On jets that satisfy `I` the second plan does with the items what the first one does with the
item, and where that does not halt it leaves jets that satisfy `I'`. -/
def Refines (p p' : Plan F) (r : Nat) (I I' : Jet F → Prop) (item : Item) (items : List Item) :
    Prop :=
  ∀ js, (∀ l < r, I (js l)) →
    (p.replayItem r item js).AgreesBelow r (p'.replayItems r 0 items js) ∧
      ((p.replayItem r item js).stop = none → ∀ l < r, I' ((p.replayItem r item js).jets l))

section Refines

variable {I I' : Jet F → Prop} (hmarks' : ∀ i, p'.marks i = false)

include hmarks'

theorem refines_plain {ins : Instr} {l : List Instr}
    (h : ∀ j, I j → l.foldl (fun j ins => p'.advance (.plain ins) j) j = p.advance (.plain ins) j ∧
      I' (p.advance (.plain ins) j)) : p.Refines p' r I I' (.plain ins) (l.map .plain) := by
  intro js hjs
  rw [replayItems_plain hmarks']
  exact ⟨⟨rfl, rfl, fun l hl => (h (js l) (hjs l hl)).1⟩, fun _ l hl => (h (js l) (hjs l hl)).2⟩

omit hmarks' in
/-- A call asks the same if what its arguments give way to has their series. -/
theorem request_rewrite {b : Block} {rule : Instr → List Instr} {j : Jet F}
    (horder : p'.order = p.order)
    (hargs : ∀ ins ∈ b.args, (rule ins).flatMap (p'.callSeries · j) = p.callSeries ins j)
    (hresults : ∀ ins ∈ b.results, p'.callSeries ins j = p.callSeries ins j) :
    p'.request (b.rewrite rule) j = p.request b j := by
  have hasked : (b.args.flatMap rule).flatMap (fun ins => p'.callSeries ins j) =
      b.args.flatMap fun ins => p.callSeries ins j := by
    rw [List.flatMap_assoc]
    exact List.flatMap_congr hargs
  have hgiven : (b.results.flatMap fun ins => (p'.callSeries ins j).take p.order ++ [0]) =
      b.results.flatMap fun ins => (p.callSeries ins j).take p.order ++ [0] :=
    List.flatMap_congr fun ins hins => by rw [hresults ins hins]
  simp only [request, Block.rewrite, horder, hasked, hgiven]

/-- A call gives way to one of the same operator with the same requests. -/
theorem refines_call {b b' : Block} (horder : p'.order = p.order)
    (hop : p'.operator? b' = p.operator? b) (hsite : ∀ operator : Operator F,
      b'.site operator = b.site operator) (hresults : b'.results = b.results)
    (hrequest : ∀ j, I j → p'.request b' j = p.request b j)
    (hkeeps : ∀ j, I j → I' (p.advance (.call b) j)) :
    p.Refines p' r I I' (.call b) [.call b'] := by
  have hopen : p'.openFault? r (.call b') = p.openFault? r (.call b) := by
    simp only [openFault?, hop, hsite, horder]
  have hanswer (j : Jet F) (hj : I j) : p'.answer b' j = p.answer b j := by
    rw [answer, answer, hop, hrequest j hj]
  have hhalt (j : Jet F) (hj : I j) : p'.halt? (.call b') j = p.halt? (.call b) j := by
    rw [halt?, halt?, hanswer j hj]
  have hadvance (j : Jet F) (hj : I j) : p'.advance (.call b') j = p.advance (.call b) j := by
    have hpicked : p'.picked = p.picked := by
      funext results i
      rw [picked, picked, horder]
    simp only [advance, hanswer j hj, hresults, horder, hpicked]
  have hask (js : Nat → Jet F) (c l : Nat) (hjs : ∀ d, l ≤ d → d < l + c → I (js d)) :
      p'.ask b' js c l = p.ask b js c l := by
    induction c generalizing l with
    | zero => rfl
    | succ c ih =>
      have hfirst := hjs l (Nat.le_refl l) (by omega)
      simp only [ask, hhalt (js l) hfirst, hrequest (js l) hfirst, horder,
        ih (l + 1) fun d hl hd => hjs d (by omega) (by omega)]
  intro js hjs
  have hlast : p'.replayItems r 0 [.call b'] js = p'.replayItem r (.call b') js :=
    (replayItems_cons hmarks' 0 (.call b') [] js).trans Outcome.andThen_nothing
  rw [hlast, replayItem, replayItem, hopen, hask js r 0 fun d _ hd => hjs d (by omega)]
  cases p.openFault? r (.call b) with
  | some f => exact ⟨⟨rfl, rfl, fun _ _ => rfl⟩, fun hnone => absurd hnone (Option.some_ne_none _)⟩
  | none =>
    rcases p.ask b js r 0 with ⟨_ | stop, requests⟩
    · exact ⟨⟨rfl, rfl, fun l hl => hadvance (js l) (hjs l hl)⟩,
        fun _ l hl => hkeeps (js l) (hjs l hl)⟩
    · exact ⟨⟨rfl, rfl, fun _ _ => rfl⟩, fun hnone => absurd hnone (Option.some_ne_none _)⟩

end Refines

/-- Where what a rule puts in the place of each item does what the item does, all items are replayed
alike. By induction on the items: what one item leaves is what the next one can rely on. -/
theorem replayItems_rewrite {I : Nat → Jet F → Prop} {rule : Instr → List Instr} {n m s k : Nat}
    {items : List Item} (hmarks : ∀ i, p.marks i = false) (hmarks' : ∀ i, p'.marks i = false)
    (hitems : ValidItems m s k n items)
    (h : ∀ n, ∀ item ∈ items, item.Valid n m s k →
      p.Refines p' r (I n) (I (n + rowCount item.instrs)) item (item.rewrite rule))
    (i i' : Nat) {js : Nat → Jet F} (hjs : ∀ l < r, I n (js l)) :
    let out := p.replayItems r i items js
    out.AgreesBelow r (p'.replayItems r i' (items.flatMap (Item.rewrite rule)) js) ∧
      (out.stop = none → ∀ l < r, I (n + rowCount (instrsOf items)) (out.jets l)) := by
  induction items generalizing n i i' js with
  | nil => exact ⟨⟨rfl, rfl, fun _ _ => rfl⟩, fun _ => hjs⟩
  | cons item rest ih =>
    obtain ⟨hitem, hrest⟩ := hitems
    obtain ⟨hfirst, h⟩ := List.forall_mem_cons.mp fun item hmem n => h n item hmem
    obtain ⟨hagrees, hkeeps⟩ := hfirst n hitem js hjs
    rw [List.flatMap_cons, replayItems_cons hmarks, replayItems_append_eq hmarks',
      replayItems_index hmarks' i' 0, instrsOf_cons, rowCount_append, ← Nat.add_assoc]
    constructor
    · refine hagrees.andThen fun hnone => ?_
      obtain ⟨hlater, -⟩ := ih hrest (fun n item hmem => h item hmem n) 0 0 (hkeeps hnone)
      obtain ⟨hstop, hrequests, hjets⟩ := replayItems_of_eq (p := p') (r := r) 0
        (rest.flatMap (Item.rewrite rule)) hagrees.jets
      exact hlater.trans ⟨hstop, hrequests, hjets⟩
    · intro hnone
      cases hstop : (p.replayItem r item js).stop with
      | some stop =>
        rw [Outcome.andThen_of_some hstop, hstop] at hnone
        cases hnone
      | none =>
        rw [Outcome.andThen_of_none hstop] at hnone ⊢
        exact (ih hrest (fun n item hmem => h item hmem n) 0 0 (hkeeps hstop)).2 hnone

/-- Items do not change what a sweep leaves in the rows before them. -/
theorem replayItems_append_of_lt {n m s k l v o : Nat} {items items' : List Item}
    (hmarks : ∀ i, p.marks i = false)
    (hitems : ValidItems m s k (n + rowCount (instrsOf items)) items')
    (hv : v < n + rowCount (instrsOf items)) (i : Nat) (js : Nat → Jet F) :
    (p.replayItems r i (items ++ items') js).jets l v o =
      (p.replayItems r i items js).jets l v o := by
  rw [replayItems_append_eq hmarks]
  cases hstop : (p.replayItems r i items js).stop with
  | some stop => rw [Outcome.andThen_of_some hstop]
  | none =>
    rw [Outcome.andThen_of_none hstop]
    exact replayItems_of_ne hitems (.inr (.inl hv))

/-- Without marks another mask makes no difference. -/
theorem replayItems_mask {n m s k : Nat} {items : List Item} (mask : Array Bool)
    (hmarks : ∀ i, p.marks i = false) (hmarks' : ∀ i, { p with mask }.marks i = false)
    (hitems : ValidItems m s k n items) (i i' : Nat) (js : Nat → Jet F) :
    (p.replayItems r i items js).AgreesBelow r ({ p with mask }.replayItems r i' items js) := by
  have hkept : items.flatMap (Item.rewrite fun ins => [ins]) = items :=
    (List.flatMap_congr fun _ _ => Item.rewrite_of_kept fun _ _ => rfl).trans
      (List.flatMap_singleton' _)
  have hrefines : ∀ n, ∀ item ∈ items, item.Valid n m s k →
      p.Refines { p with mask } r (fun _ => True) (fun _ => True) item
        (item.rewrite fun ins => [ins]) := by
    intro n item _ _
    cases item with
    | plain ins => exact refines_plain hmarks' fun _ _ => ⟨rfl, trivial⟩
    | call b =>
      rw [Item.rewrite, b.rewrite_of_kept fun _ _ => rfl]
      exact refines_call hmarks' rfl rfl (fun _ => rfl) rfl (fun _ _ => rfl) fun _ _ => trivial
  suffices hall : (p.replayItems r i items js).AgreesBelow r
      ({ p with mask }.replayItems r i' (items.flatMap (Item.rewrite fun ins => [ins])) js) by
    rwa [hkept] at hall
  exact (replayItems_rewrite (I := fun _ _ => True) hmarks hmarks' hitems hrefines i i'
    fun _ _ => trivial).1

end Plan

end JetTape
