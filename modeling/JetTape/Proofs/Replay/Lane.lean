import JetTape.Proofs.Recurrence.Dependence
import JetTape.Proofs.Tape.Items
import JetTape.Replay.Basic

/-!
Items on a single jet. A sweep treats the directions alike, so what an item does is told along one
of them: how it advances the jet, what it asks an operator, and whether the operator makes it halt.
The sweep of a sequence of items over several directions is put together from this.
-/
namespace JetTape

variable {F : Type}

/-- What a sweep works with besides the coefficients. -/
structure Plan (F : Type) where
  order : Nat
  params : Array F
  registry : Array (Operator F)
  resolved : Array Nat
  mask : Array Bool

/-- The call that a block describes. -/
def Block.site (b : Block) (operator : Operator F) : CallSite F where
  operator := operator
  callId := b.opening.args.getD 1 0
  argCount := b.args.length
  resultCount := b.results.length

/-- Why a sweep halts along a direction. -/
inductive Halt where
  | refused (operator : String)
  | fault (report : String)
  deriving DecidableEq, Repr

/-- The stop of a sweep of order `q` that halts along direction `l`. -/
def Halt.stop (q l : Nat) : Halt → Stop
  | refused operator => .refused operator q l
  | fault report => .fault (.operator report)

/-- Gives the variable results among listed call instructions their order-`q` coefficients. The
first of them is result `i`. -/
def Jet.fill (q : Nat) (answer : Nat → F) : Nat → List Instr → Jet F → Jet F
  | _, [], j => j
  | i, ins :: rest, j =>
    fill q answer (i + 1) rest (if ins.op = .callResult .var then j.set ins.row q (answer i) else j)

/-- An operator's reply as a list of results or a reason to halt. -/
def Operator.answer (operator : Operator F) (r : Request F) : Except Halt (Array F) :=
  match operator.forward r with
  | .accept results => .ok results.toArray
  | .refuse => .error (.refused operator.name)
  | .fault report => .error (.fault report)

namespace Plan

variable [Scalar F]

/-- The coefficients of a call argument or result from order 0 to the order of the sweep. -/
def callSeries (p : Plan F) (ins : Instr) (j : Jet F) : List F :=
  match ins.op with
  | .callArg .var => (List.range' 0 (p.order + 1)).map (j (ins.args.getD 0 0))
  | .callResult .var => (List.range' 0 (p.order + 1)).map (j ins.row)
  | _ => p.params.getD (ins.args.getD 0 0) 0 :: List.replicate p.order 0

/-- The request of a call block. The results' own order-`q` coefficients are not in it. -/
def request (p : Plan F) (b : Block) (j : Jet F) : Request F where
  callId := b.opening.args.getD 1 0
  fromOrder := p.order
  toOrder := p.order
  argFlags := []
  resultFlags := []
  args := (b.args.flatMap fun ins => p.callSeries ins j).toArray
  results := (b.results.flatMap fun ins => (p.callSeries ins j).take p.order ++ [0]).toArray

/-- The operator that a call block names. -/
def operator? (p : Plan F) (b : Block) : Option (Operator F) :=
  p.registry[b.opening.args.getD 0 0]?

/-- What the operator of a call block answers. Without an operator nothing is filled in. -/
def answer (p : Plan F) (b : Block) (j : Jet F) : Except Halt (Array F) :=
  match p.operator? b with
  | none => .ok #[]
  | some operator => operator.answer (p.request b j)

/-- The results that the operator of a block answers; none where it halts. -/
def results (p : Plan F) (b : Block) (j : Jet F) : Array F :=
  match p.answer b j with
  | .ok results => results
  | .error _ => #[]

def halt? (p : Plan F) : Item → Jet F → Option Halt
  | .plain _, _ => none
  | .call b, j =>
    match p.answer b j with
    | .ok _ => none
    | .error h => some h

/-- The order-`q` coefficient of result `i` in an answer. -/
def picked (p : Plan F) (results : Array F) (i : Nat) : F :=
  results.getD (i * (p.order + 1) + p.order) 0

/-- Gives the rows of an item their coefficients; an item that halts gives none. -/
def advance (p : Plan F) : Item → Jet F → Jet F
  | .plain ins, j => j.advance p.order p.params p.resolved ins
  | .call b, j =>
    match p.answer b j with
    | .ok results => j.fill p.order (p.picked results) 0 b.results
    | .error _ => j

theorem advance_call {p : Plan F} {b : Block} {j : Jet F} (h : p.halt? (.call b) j = none) :
    p.advance (.call b) j = j.fill p.order (p.picked (p.results b j)) 0 b.results := by
  rw [halt?] at h
  rw [advance, results]
  cases hanswer : p.answer b j with
  | ok results => rfl
  | error halt =>
    rw [hanswer] at h
    cases h

/-- A block halts where its operator does, and else it has the operator's answer. -/
theorem halt?_of_answer {p : Plan F} {b : Block} {operator : Operator F}
    (hop : p.operator? b = some operator) (j : Jet F) :
    match operator.answer (p.request b j) with
    | .ok results => p.halt? (.call b) j = none ∧ p.results b j = results
    | .error halt => p.halt? (.call b) j = some halt := by
  rw [halt?, results, answer, hop]
  dsimp only
  cases operator.answer (p.request b j) with
  | ok results => exact ⟨rfl, rfl⟩
  | error halt => rfl

/-- A block halts along a direction if its operator does. -/
theorem answer_eq_of_halt? {p : Plan F} {b : Block} {operator : Operator F}
    (hop : p.operator? b = some operator) {j : Jet F} {halt : Halt}
    (h : p.halt? (.call b) j = some halt) :
    operator.answer (p.request b j) = .error halt := by
  rw [halt?, answer, hop] at h
  dsimp only at h
  cases hanswer : operator.answer (p.request b j) with
  | ok results =>
    rw [hanswer] at h
    cases h
  | error halt' =>
    rw [hanswer] at h
    cases h
    rfl

/-- A block that does not halt has the answer of its operator. -/
theorem answer_eq_results {p : Plan F} {b : Block} {operator : Operator F}
    (hop : p.operator? b = some operator) {j : Jet F} (h : p.halt? (.call b) j = none) :
    operator.answer (p.request b j) = .ok (p.results b j) := by
  rw [halt?, answer, hop] at h
  rw [results, answer, hop]
  dsimp only at h ⊢
  cases hanswer : operator.answer (p.request b j) with
  | ok results => rfl
  | error halt =>
    rw [hanswer] at h
    cases h

/-- Asks the operator of a block along `n` directions from `l` on, up to the first that makes it
halt. The requests are those that were made. -/
def ask (p : Plan F) (b : Block) (js : Nat → Jet F) (n l : Nat) : Option Stop × List (Request F) :=
  match n with
  | 0 => (none, [])
  | n + 1 =>
    match p.halt? (.call b) (js l) with
    | some h => (some (h.stop p.order l), [p.request b (js l)])
    | none =>
      let rest := p.ask b js n (l + 1)
      (rest.1, p.request b (js l) :: rest.2)

end Plan

/-- What the sweep of a sequence of items leaves, all directions together. -/
structure Outcome (F : Type) where
  stop : Option Stop
  jets : Nat → Jet F
  requests : List (Request F)

namespace Plan

variable [Scalar F]

/-- The fault that opens a call block over `r` directions when there is no room for its series. -/
def openFault? (p : Plan F) (r : Nat) : Item → Option Fault
  | .plain _ => none
  | .call b =>
    match p.operator? b with
    | none => none
    | some operator =>
      match Call.Frame.new (b.site operator) p.order r with
      | .ok _ => none
      | .error f => some f

/-- Replays an item over `r` directions. Where it halts along one it advances none. -/
def replayItem (p : Plan F) (r : Nat) (item : Item) (js : Nat → Jet F) : Outcome F :=
  match item with
  | .plain ins => ⟨none, fun l => p.advance (.plain ins) (js l), []⟩
  | .call b =>
    match p.openFault? r (.call b) with
    | some f => ⟨some (.fault f), js, []⟩
    | none =>
      match p.ask b js r 0 with
      | (some stop, requests) => ⟨some stop, js, requests⟩
      | (none, requests) => ⟨none, fun l => p.advance (.call b) (js l), requests⟩

/-- Whether the mask marks the instruction. -/
def marks (p : Plan F) (i : Nat) : Bool := p.mask.getD i false

/-- Replays items from instruction `i` on, passing over those that begin with a marked
instruction. -/
def replayItems (p : Plan F) (r : Nat) : Nat → List Item → (Nat → Jet F) → Outcome F
  | _, [], js => ⟨none, js, []⟩
  | i, item :: rest, js =>
    if p.marks i then p.replayItems r (i + item.size) rest js
    else
      let first := p.replayItem r item js
      match first.stop with
      | some _ => first
      | none =>
        let last := p.replayItems r (i + item.size) rest first.jets
        ⟨last.stop, last.jets, first.requests ++ last.requests⟩

/-- Advances a jet by the items from instruction `i` on, passing over those that begin with a
marked instruction. -/
def advanceItems (p : Plan F) : Nat → List Item → Jet F → Jet F
  | _, [], j => j
  | i, item :: rest, j =>
    p.advanceItems (i + item.size) rest (if p.marks i then j else p.advance item j)

section Asking

variable {p : Plan F} {b : Block} {js : Nat → Jet F}

theorem ask_eq_none {n l : Nat} (h : (p.ask b js n l).1 = none) :
    ∀ l', l ≤ l' → l' < l + n → p.halt? (.call b) (js l') = none := by
  induction n generalizing l with
  | zero =>
    intro l' hl hn
    omega
  | succ n ih =>
    intro l' hl hn
    unfold ask at h
    cases hfirst : p.halt? (.call b) (js l) with
    | some halt =>
      rw [hfirst] at h
      cases h
    | none =>
      rw [hfirst] at h
      by_cases hlast : l' = l
      · rw [hlast, hfirst]
      · exact ih h l' (by omega) (by omega)

theorem ask_eq_none_iff {n l : Nat} :
    (p.ask b js n l).1 = none ↔ ∀ l', l ≤ l' → l' < l + n → p.halt? (.call b) (js l') = none := by
  refine ⟨ask_eq_none, ?_⟩
  intro h
  induction n generalizing l with
  | zero => rfl
  | succ n ih =>
    unfold ask
    rw [h l (Nat.le_refl l) (by omega)]
    exact ih fun l' hl hn => h l' (by omega) (by omega)

/-- A block that halts along no direction asks along all of them. -/
theorem requests_of_ask_eq_none {n l : Nat} (h : (p.ask b js n l).1 = none) :
    (p.ask b js n l).2 = (List.range' l n).map fun d => p.request b (js d) := by
  induction n generalizing l with
  | zero => rfl
  | succ n ih =>
    have hfirst := ask_eq_none h l (Nat.le_refl l) (by omega)
    unfold ask at h ⊢
    rw [hfirst] at h ⊢
    rw [List.range'_succ, List.map_cons, ← ih h]

/-- The first direction along which the block halts is the last along which it asks. -/
theorem ask_eq_some {n l : Nat} {stop : Stop} (h : (p.ask b js n l).1 = some stop) :
    ∃ d halt, d < n ∧ (∀ l', l ≤ l' → l' < l + d → p.halt? (.call b) (js l') = none) ∧
      p.halt? (.call b) (js (l + d)) = some halt ∧ stop = halt.stop p.order (l + d) ∧
      (p.ask b js n l).2 = (List.range' l (d + 1)).map fun d => p.request b (js d) := by
  induction n generalizing l with
  | zero => cases h
  | succ n ih =>
    unfold ask at h ⊢
    cases hfirst : p.halt? (.call b) (js l) with
    | some halt =>
      rw [hfirst] at h
      exact ⟨0, halt, by omega, fun _ _ _ => by omega, hfirst, (Option.some.inj h).symm, rfl⟩
    | none =>
      rw [hfirst] at h
      obtain ⟨d, halt, hd, hbefore, hhalt, hstop, hrequests⟩ := ih h
      have hindex : l + 1 + d = l + (d + 1) := by omega
      rw [hindex] at hhalt hstop
      refine ⟨d + 1, halt, by omega, ?_, hhalt, hstop, ?_⟩
      · intro l' hl hlt
        by_cases hlast : l' = l
        · rw [hlast, hfirst]
        · exact hbefore l' (by omega) (by omega)
      · rw [List.range'_succ, List.map_cons, ← hrequests]

/-- Asking ends at the first direction along which the block halts. -/
theorem ask_of_halt? {n l d : Nat} {halt : Halt} (hd : d < n)
    (hbefore : ∀ l', l ≤ l' → l' < l + d → p.halt? (.call b) (js l') = none)
    (hhalt : p.halt? (.call b) (js (l + d)) = some halt) :
    p.ask b js n l = (some (halt.stop p.order (l + d)),
      (List.range' l (d + 1)).map fun d => p.request b (js d)) := by
  cases hstop : (p.ask b js n l).1 with
  | none =>
    rw [ask_eq_none hstop (l + d) (by omega) (by omega)] at hhalt
    cases hhalt
  | some stop =>
    obtain ⟨d', halt', -, hbefore', hhalt', rfl, hrequests⟩ := ask_eq_some hstop
    have hle : d' ≤ d := by
      by_contra hlt
      rw [hbefore' (l + d) (by omega) (by omega)] at hhalt
      cases hhalt
    have hge : d ≤ d' := by
      by_contra hlt
      rw [hbefore (l + d') (by omega) (by omega)] at hhalt'
      cases hhalt'
    obtain rfl := Nat.le_antisymm hle hge
    rw [hhalt] at hhalt'
    cases hhalt'
    exact Prod.ext hstop hrequests

end Asking

/-- Why the sweep of the items from instruction `i` on halts along one direction. -/
def haltItems? (p : Plan F) : Nat → List Item → Jet F → Option Halt
  | _, [], _ => none
  | i, item :: rest, j =>
    if p.marks i then p.haltItems? (i + item.size) rest j
    else
      match p.halt? item j with
      | some h => some h
      | none => p.haltItems? (i + item.size) rest (p.advance item j)

section Items

variable {p : Plan F} {r : Nat}

theorem replayItem_call_none {b : Block} {js : Nat → Jet F}
    (hopen : p.openFault? r (.call b) = none) (h : (p.ask b js r 0).1 = none) :
    p.replayItem r (.call b) js =
      ⟨none, fun l => p.advance (.call b) (js l), (p.ask b js r 0).2⟩ := by
  rw [replayItem, hopen]
  rcases hask : p.ask b js r 0 with ⟨_ | stop, requests⟩
  · rfl
  · rw [hask] at h
    cases h

theorem replayItem_call_some {b : Block} {js : Nat → Jet F} {stop : Stop}
    (hopen : p.openFault? r (.call b) = none) (h : (p.ask b js r 0).1 = some stop) :
    p.replayItem r (.call b) js = ⟨some stop, js, (p.ask b js r 0).2⟩ := by
  rw [replayItem, hopen]
  rcases hask : p.ask b js r 0 with ⟨_ | stop', requests⟩
  · rw [hask] at h
    cases h
  · rw [hask] at h
    cases h
    rfl

theorem replayItem_of_openFault {item : Item} {js : Nat → Jet F} {f : Fault}
    (h : p.openFault? r item = some f) : p.replayItem r item js = ⟨some (.fault f), js, []⟩ := by
  cases item with
  | plain ins => cases h
  | call b => rw [replayItem, h]

section Cons

variable {i : Nat} {item : Item} {rest : List Item} {js : Nat → Jet F}

theorem replayItems_marked (h : p.marks i = true) :
    p.replayItems r i (item :: rest) js = p.replayItems r (i + item.size) rest js := by
  rw [replayItems, if_pos h]

theorem replayItems_stopped {stop : Stop} (h : p.marks i = false)
    (hstop : (p.replayItem r item js).stop = some stop) :
    p.replayItems r i (item :: rest) js = p.replayItem r item js := by
  simp [replayItems, h, hstop]

theorem replayItems_went_on (h : p.marks i = false)
    (hstop : (p.replayItem r item js).stop = none) :
    p.replayItems r i (item :: rest) js =
      let last := p.replayItems r (i + item.size) rest (p.replayItem r item js).jets
      ⟨last.stop, last.jets, (p.replayItem r item js).requests ++ last.requests⟩ := by
  simp [replayItems, h, hstop]

end Cons

/-- A sweep that comes to its end has come to the end of its first part, and from there to the end
of the second. -/
theorem replayItems_append {i : Nat} {items items' : List Item} {js : Nat → Jet F}
    (h : (p.replayItems r i (items ++ items') js).stop = none) :
    let first := p.replayItems r i items js
    let last := p.replayItems r (i + (instrsOf items).length) items' first.jets
    first.stop = none ∧ last.stop = none ∧
      (p.replayItems r i (items ++ items') js).jets = last.jets ∧
      (p.replayItems r i (items ++ items') js).requests = first.requests ++ last.requests := by
  induction items generalizing i js with
  | nil => exact ⟨rfl, h, rfl, rfl⟩
  | cons item rest ih =>
    have hnext : i + (instrsOf (item :: rest)).length =
        i + item.size + (instrsOf rest).length := by
      rw [instrsOf_cons, List.length_append, Item.size, Nat.add_assoc]
    rw [List.cons_append] at h ⊢
    rw [hnext]
    cases hmark : p.marks i with
    | true =>
      simp only [replayItems_marked hmark] at h ⊢
      exact ih h
    | false =>
      cases hfirst : (p.replayItem r item js).stop with
      | some stop =>
        rw [replayItems_stopped hmark hfirst, hfirst] at h
        cases h
      | none =>
        simp only [replayItems_went_on hmark hfirst] at h ⊢
        obtain ⟨hstop, hstop', hjets, hrequests⟩ := ih h
        exact ⟨hstop, hstop', hjets, (congrArg _ hrequests).trans (List.append_assoc _ _ _).symm⟩

theorem replayItem_eq_none_iff {item : Item} {js : Nat → Jet F} :
    (p.replayItem r item js).stop = none ↔
      p.openFault? r item = none ∧ ∀ l < r, p.halt? item (js l) = none := by
  cases hopen : p.openFault? r item with
  | some f => simp [replayItem_of_openFault hopen]
  | none =>
    cases item with
    | plain ins => exact ⟨fun _ => ⟨rfl, fun _ _ => rfl⟩, fun _ => rfl⟩
    | call b =>
      have hask : (p.ask b js r 0).1 = none ↔ _ := ask_eq_none_iff
      simp only [Nat.zero_le, Nat.zero_add, forall_const] at hask
      rw [← hask]
      cases hstop : (p.ask b js r 0).1 with
      | none => simp [replayItem_call_none hopen hstop]
      | some stop => simp [replayItem_call_some hopen hstop]

theorem replayItem_jets {item : Item} {js : Nat → Jet F}
    (h : (p.replayItem r item js).stop = none) :
    (p.replayItem r item js).jets = fun l => p.advance item (js l) := by
  cases item with
  | plain ins => rfl
  | call b =>
    have hopen := (replayItem_eq_none_iff.mp h).1
    cases hstop : (p.ask b js r 0).1 with
    | none => rw [replayItem_call_none hopen hstop]
    | some stop =>
      rw [replayItem_call_some hopen hstop] at h
      cases h

theorem replayItem_eq_some {item : Item} {js : Nat → Jet F} {stop : Stop}
    (h : (p.replayItem r item js).stop = some stop) :
    (∃ f, p.openFault? r item = some f ∧ stop = .fault f) ∨
      ∃ l halt, l < r ∧ p.halt? item (js l) = some halt ∧ stop = halt.stop p.order l := by
  cases hopen : p.openFault? r item with
  | some f =>
    rw [replayItem_of_openFault hopen] at h
    cases h
    exact Or.inl ⟨f, rfl, rfl⟩
  | none =>
    right
    cases item with
    | plain ins => cases h
    | call b =>
      cases hstop : (p.ask b js r 0).1 with
      | none =>
        rw [replayItem_call_none hopen hstop] at h
        cases h
      | some stop' =>
        rw [replayItem_call_some hopen hstop] at h
        cases h
        obtain ⟨d, halt, hd, -, hhalt, hstop, -⟩ := ask_eq_some hstop
        rw [Nat.zero_add] at hhalt hstop
        exact ⟨d, halt, hd, hhalt, hstop⟩

/-- A sweep that comes to its end has done to each direction what it does to one alone. -/
theorem replayItems_eq_none {i : Nat} {items : List Item} {js : Nat → Jet F}
    (h : (p.replayItems r i items js).stop = none) :
    (∀ l < r, p.haltItems? i items (js l) = none) ∧
      (p.replayItems r i items js).jets = fun l => p.advanceItems i items (js l) := by
  induction items generalizing i js with
  | nil => exact ⟨fun _ _ => rfl, rfl⟩
  | cons item rest ih =>
    cases hmark : p.marks i with
    | true =>
      rw [replayItems_marked hmark] at h ⊢
      simpa [haltItems?, advanceItems, hmark] using ih h
    | false =>
      cases hfirst : (p.replayItem r item js).stop with
      | some stop =>
        rw [replayItems_stopped hmark hfirst, hfirst] at h
        cases h
      | none =>
        rw [replayItems_went_on hmark hfirst] at h ⊢
        obtain ⟨hhalts, hjets⟩ := ih h
        rw [replayItem_jets hfirst] at hhalts hjets
        constructor
        · intro l hl
          have hnone := (replayItem_eq_none_iff.mp hfirst).2 l hl
          simpa [haltItems?, hmark, hnone] using hhalts l hl
        · simpa [advanceItems, hmark, replayItem_jets hfirst] using hjets

/-- A sweep that stops early lacks room for a call or has halted along some direction. -/
theorem replayItems_eq_some {i : Nat} {items : List Item} {js : Nat → Jet F} {stop : Stop}
    (h : (p.replayItems r i items js).stop = some stop) :
    (∃ item ∈ items, ∃ f, p.openFault? r item = some f ∧ stop = .fault f) ∨
      ∃ l halt, l < r ∧ p.haltItems? i items (js l) = some halt ∧ stop = halt.stop p.order l := by
  induction items generalizing i js with
  | nil => cases h
  | cons item rest ih =>
    have later : (∃ item ∈ rest, ∃ f, p.openFault? r item = some f ∧ stop = .fault f) →
        ∃ i ∈ item :: rest, ∃ f, p.openFault? r i = some f ∧ stop = .fault f :=
      fun ⟨i, hi, hf⟩ => ⟨i, List.mem_cons_of_mem item hi, hf⟩
    cases hmark : p.marks i with
    | true =>
      rw [replayItems_marked hmark] at h
      simpa [haltItems?, hmark] using (ih h).imp_left later
    | false =>
      cases hfirst : (p.replayItem r item js).stop with
      | some stop' =>
        rw [replayItems_stopped hmark hfirst] at h
        rcases replayItem_eq_some h with ⟨f, hf, hstop⟩ | ⟨l, halt, hl, hhalt, hstop⟩
        · exact Or.inl ⟨item, List.mem_cons_self, f, hf, hstop⟩
        · exact Or.inr ⟨l, halt, hl, by simp [haltItems?, hmark, hhalt], hstop⟩
      | none =>
        rw [replayItems_went_on hmark hfirst] at h
        refine (ih h).imp later ?_
        rintro ⟨l, halt, hl, hhalt, hstop⟩
        rw [replayItem_jets hfirst] at hhalt
        have hnone := (replayItem_eq_none_iff.mp hfirst).2 l hl
        exact ⟨l, halt, hl, by simpa [haltItems?, hmark, hnone] using hhalt, hstop⟩

/-- Only the jets of the directions matter. -/
theorem ask_of_eq {b : Block} {js js' : Nat → Jet F} {n l : Nat}
    (h : ∀ l', l ≤ l' → l' < l + n → js l' = js' l') : p.ask b js n l = p.ask b js' n l := by
  induction n generalizing l with
  | zero => rfl
  | succ n ih =>
    unfold ask
    rw [h l (Nat.le_refl l) (by omega), ih fun l' hl hn => h l' (by omega) (by omega)]

theorem replayItem_of_eq (item : Item) {js js' : Nat → Jet F} (h : ∀ l < r, js l = js' l) :
    (p.replayItem r item js).stop = (p.replayItem r item js').stop ∧
      (p.replayItem r item js).requests = (p.replayItem r item js').requests ∧
      ∀ l < r, (p.replayItem r item js).jets l = (p.replayItem r item js').jets l := by
  cases item with
  | plain ins =>
    refine ⟨rfl, rfl, ?_⟩
    intro l hl
    simp only [replayItem, h l hl]
  | call b =>
    rw [replayItem, replayItem, ask_of_eq fun l _ hl => h l (by omega)]
    cases p.openFault? r (.call b) with
    | some f => exact ⟨rfl, rfl, h⟩
    | none =>
      rcases p.ask b js' r 0 with ⟨_ | stop, requests⟩
      · refine ⟨rfl, rfl, ?_⟩
        intro l hl
        simp only [h l hl]
      · exact ⟨rfl, rfl, h⟩

theorem replayItems_of_eq (i : Nat) (items : List Item) {js js' : Nat → Jet F}
    (h : ∀ l < r, js l = js' l) :
    (p.replayItems r i items js).stop = (p.replayItems r i items js').stop ∧
      (p.replayItems r i items js).requests = (p.replayItems r i items js').requests ∧
      ∀ l < r, (p.replayItems r i items js).jets l = (p.replayItems r i items js').jets l := by
  induction items generalizing i js js' with
  | nil => exact ⟨rfl, rfl, h⟩
  | cons item rest ih =>
    cases hmark : p.marks i with
    | true =>
      rw [replayItems_marked hmark, replayItems_marked hmark]
      exact ih _ h
    | false =>
      obtain ⟨hstop, hrequests, hjets⟩ := replayItem_of_eq item h
      cases hfirst : (p.replayItem r item js).stop with
      | some stop =>
        have hfirst' := hstop.symm.trans hfirst
        rw [replayItems_stopped hmark hfirst, replayItems_stopped hmark hfirst']
        exact ⟨hstop, hrequests, hjets⟩
      | none =>
        have hfirst' := hstop.symm.trans hfirst
        rw [replayItems_went_on hmark hfirst, replayItems_went_on hmark hfirst']
        obtain ⟨hstop', hrequests', hjets'⟩ := ih (i + item.size) hjets
        exact ⟨hstop', congrArg₂ _ hrequests hrequests', hjets'⟩

end Items

end Plan

end JetTape
