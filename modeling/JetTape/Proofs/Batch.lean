import Mathlib.Data.List.Forall2
import Mathlib.Logic.Relation

/-!
Batches. Workers take any item of a batch that waits and give it back when they are done with it,
with an error if the work on it has failed. Items do not see each other. Once an item has failed the
batch may be broken off at any time; what no worker has taken by then stays as it is.
-/
open Relation (ReflTransGen)

namespace JetTape.Batch

/-- An item of a batch and how far the work on it has come. -/
inductive Slot (α ε : Type) where
  | waiting (x : α)
  | taken (x : α)
  | done (x : α) (error : Option ε)

variable {α ε : Type}

def Slot.item : Slot α ε → α
  | waiting x | taken x | done x _ => x

/-- A worker takes an item, or it has finished its work and gives the item back. -/
inductive Step (work : α → Option ε × α) : List (Slot α ε) → List (Slot α ε) → Prop where
  | take (x : α) (rest : List (Slot α ε)) : Step work (.waiting x :: rest) (.taken x :: rest)
  | giveBack (x : α) (rest : List (Slot α ε)) :
      Step work (.taken x :: rest) (.done (work x).2 (work x).1 :: rest)
  | behind (slot : Slot α ε) {rest rest' : List (Slot α ε)} (h : Step work rest rest') :
      Step work (slot :: rest) (slot :: rest')

/-- A batch is over when no worker holds an item and either the work on all items has come out well
or an item has failed. In that case its error is the result, or that of another item that has
failed. -/
structure Over (slots : List (Slot α ε)) (result : Option ε) : Prop where
  idle : ∀ x, .taken x ∉ slots
  ok : result = none → ∀ slot ∈ slots, ∃ x, slot = .done x none
  failed : ∀ e, result = some e → ∃ x, .done x (some e) ∈ slots

/-- Under some schedule the work on a batch ends with this result and leaves these items. -/
def Runs (work : α → Option ε × α) (xs : List α) (result : Option ε) (xs' : List α) : Prop :=
  ∃ slots, ReflTransGen (Step work) (xs.map .waiting) slots ∧ Over slots result ∧
    slots.map Slot.item = xs'

/-- Batches for `n` stages of work from stage `i` on, each over what the one before has left, up to
the first that fails. -/
inductive RunsInTurn (work : Nat → α → Option ε × α) :
    Nat → Nat → List α → Option ε → List α → Prop where
  | done (i : Nat) (xs : List α) : RunsInTurn work 0 i xs none xs
  | failed {n i : Nat} {xs xs' : List α} {e : ε} (h : Runs (work i) xs (some e) xs') :
      RunsInTurn work (n + 1) i xs (some e) xs'
  | next {n i : Nat} {xs xs' xs'' : List α} {result : Option ε} (h : Runs (work i) xs none xs')
      (hrest : RunsInTurn work n (i + 1) xs' result xs'') :
      RunsInTurn work (n + 1) i xs result xs''

/-- All stages of the work on one item, up to the first that fails. -/
def inTurn (work : Nat → α → Option ε × α) : Nat → Nat → α → Option ε × α
  | 0, _, x => (none, x)
  | n + 1, i, x =>
    match work i x with
    | (some e, x) => (some e, x)
    | (none, x) => inTurn work n (i + 1) x

/-- The batch agrees with the work on each item alone. -/
structure Agrees (work : α → Option ε × α) (xs : List α) (result : Option ε) (xs' : List α) :
    Prop where
  ok_iff : result = none ↔ ∀ x ∈ xs, (work x).1 = none
  worked : result = none → xs' = xs.map fun x => (work x).2
  failed : ∀ e, result = some e → ∃ x ∈ xs, (work x).1 = some e
  each : List.Forall₂ (fun x x' => x' = x ∨ x' = (work x).2) xs xs'

/-- A slot holds the item as it was or what the work makes of it. -/
inductive Tracks (work : α → Option ε × α) : α → Slot α ε → Prop where
  | waiting (x : α) : Tracks work x (.waiting x)
  | taken (x : α) : Tracks work x (.taken x)
  | done (x : α) : Tracks work x (.done (work x).2 (work x).1)

variable {work : α → Option ε × α} {slots slots' : List (Slot α ε)} {xs xs' : List α}
  {result : Option ε}

theorem Tracks.item {x : α} {slot : Slot α ε} (h : Tracks work x slot) :
    slot.item = x ∨ slot.item = (work x).2 := by
  cases h with
  | waiting | taken => exact Or.inl rfl
  | done => exact Or.inr rfl

theorem Tracks.work_eq {x y : α} {error : Option ε} (h : Tracks work x (.done y error)) :
    work x = (error, y) := by
  generalize hslot : Slot.done y error = slot at h
  cases h with
  | waiting | taken => cases hslot
  | done =>
    cases hslot
    rfl

theorem Step.tracks (h : Step work slots slots') (ht : List.Forall₂ (Tracks work) xs slots) :
    List.Forall₂ (Tracks work) xs slots' := by
  induction h generalizing xs with
  | take x rest =>
    obtain _ | ⟨hx, hrest⟩ := ht
    cases hx
    exact .cons (.taken x) hrest
  | giveBack x rest =>
    obtain _ | ⟨hx, hrest⟩ := ht
    cases hx
    exact .cons (.done x) hrest
  | behind slot _ ih =>
    obtain _ | ⟨hx, hrest⟩ := ht
    exact .cons hx (ih hrest)

theorem tracks_waiting (work : α → Option ε × α) (xs : List α) :
    List.Forall₂ (Tracks work) xs (xs.map .waiting) := by
  induction xs with
  | nil => exact .nil
  | cons x xs ih => exact .cons (.waiting x) ih

/-- However far the work on a batch has come, its slots hold the items as they were or what the work
makes of them. -/
theorem tracks_of_reaches (h : ReflTransGen (Step work) (xs.map .waiting) slots) :
    List.Forall₂ (Tracks work) xs slots := by
  induction h with
  | refl => exact tracks_waiting work xs
  | tail _ hstep ih => exact hstep.tracks ih

/-- An item that has been given back is what the work makes of one of the items. -/
theorem exists_of_done (h : List.Forall₂ (Tracks work) xs slots) {x : α} {error : Option ε}
    (hdone : .done x error ∈ slots) : ∃ y ∈ xs, work y = (error, x) := by
  induction h with
  | nil => cases hdone
  | @cons y slot ys slots hy _ ih =>
    rcases List.mem_cons.mp hdone with rfl | hdone
    · exact ⟨y, List.mem_cons_self, hy.work_eq⟩
    · obtain ⟨z, hz, hwork⟩ := ih hdone
      exact ⟨z, List.mem_cons_of_mem y hz, hwork⟩

/-- When all items have been given back without an error, all of them have been worked on. -/
theorem worked_of_done (h : List.Forall₂ (Tracks work) xs slots)
    (hdone : ∀ slot ∈ slots, ∃ x, slot = .done x none) :
    (∀ x ∈ xs, (work x).1 = none) ∧ slots.map Slot.item = xs.map fun x => (work x).2 := by
  induction h with
  | nil => exact ⟨nofun, rfl⟩
  | @cons y slot ys slots hy _ ih =>
    obtain ⟨hnone, hitems⟩ := ih fun slot hs => hdone slot (List.mem_cons_of_mem _ hs)
    obtain ⟨x, rfl⟩ := hdone slot List.mem_cons_self
    refine ⟨List.forall_mem_cons.mpr ⟨?_, hnone⟩, ?_⟩
    · rw [hy.work_eq]
    · rw [List.map_cons, List.map_cons, hitems, hy.work_eq]
      rfl

/-- Under every schedule a batch agrees with the work on each item alone. -/
theorem Runs.agrees (h : Runs work xs result xs') : Agrees work xs result xs' := by
  obtain ⟨slots, hreach, hover, rfl⟩ := h
  have htracks := tracks_of_reaches hreach
  have hfailed (e : ε) (he : result = some e) : ∃ x ∈ xs, (work x).1 = some e := by
    obtain ⟨y, hy⟩ := hover.failed e he
    obtain ⟨x, hx, hwork⟩ := exists_of_done htracks hy
    exact ⟨x, hx, congrArg Prod.fst hwork⟩
  refine ⟨⟨fun h => (worked_of_done htracks (hover.ok h)).1, fun h => ?_⟩,
    fun h => (worked_of_done htracks (hover.ok h)).2, hfailed, ?_⟩
  · cases hresult : result with
    | none => rfl
    | some e =>
      obtain ⟨x, hx, he⟩ := hfailed e hresult
      rw [h x hx] at he
      cases he
  · exact List.forall₂_map_right_iff.mpr (htracks.imp fun _ _ ht => ht.item)

section InTurn

variable {works : Nat → α → Option ε × α} {n i : Nat}

theorem inTurn_of_failed {x : α} {e : ε} (h : (works i x).1 = some e) :
    inTurn works (n + 1) i x = works i x := by
  rw [inTurn]
  generalize works i x = worked at h ⊢
  obtain ⟨error, y⟩ := worked
  cases h
  rfl

theorem inTurn_of_ok {x : α} (h : (works i x).1 = none) :
    inTurn works (n + 1) i x = inTurn works n (i + 1) (works i x).2 := by
  rw [inTurn]
  generalize works i x = worked at h ⊢
  obtain ⟨error, y⟩ := worked
  cases h
  rfl

/-- Batches for the stages of the work, one after the other, come out well if and only if the stages
do on each item alone, and then they leave the same items. By induction on the stages: the batch for
the first one agrees with the work on each item, and the others start from what it has left. -/
theorem RunsInTurn.agrees (h : RunsInTurn works n i xs result xs') :
    (result = none ↔ ∀ x ∈ xs, (inTurn works n i x).1 = none) ∧
      (result = none → xs' = xs.map fun x => (inTurn works n i x).2) := by
  induction h with
  | done i xs => exact ⟨⟨fun _ _ _ => rfl, fun _ => rfl⟩, fun _ => (List.map_id' xs).symm⟩
  | @failed n i xs xs' e h =>
    obtain ⟨x, hx, hwork⟩ := h.agrees.failed e rfl
    refine ⟨⟨nofun, fun hall => ?_⟩, nofun⟩
    have hnone := hall x hx
    rw [inTurn_of_failed hwork, hwork] at hnone
    cases hnone
  | @next n i xs xs' xs'' result h _ ih =>
    have hok := h.agrees.ok_iff.mp rfl
    obtain rfl := h.agrees.worked rfl
    have hstage (x : α) (hx : x ∈ xs) :
        inTurn works (n + 1) i x = inTurn works n (i + 1) (works i x).2 :=
      inTurn_of_ok (hok x hx)
    obtain ⟨hiff, hitems⟩ := ih
    constructor
    · rw [hiff]
      simp only [List.forall_mem_map]
      exact forall₂_congr fun x hx => by rw [hstage x hx]
    · intro hnone
      rw [hitems hnone, List.map_map]
      exact List.map_congr_left fun x hx => congrArg Prod.snd (hstage x hx).symm

/-- A batch for all stages at once and batches for one stage after the other come out well in the
same cases, and then they leave the same items. -/
theorem Runs.iff_inTurn {result' : Option ε} {xs'' : List α} (h : Runs work xs result xs')
    (hwork : ∀ x ∈ xs, work x = inTurn works n i x)
    (h' : RunsInTurn works n i xs result' xs'') :
    (result = none ↔ result' = none) ∧ (result = none → xs' = xs'') := by
  have hiff : result = none ↔ result' = none := by
    rw [h.agrees.ok_iff, h'.agrees.1]
    exact forall₂_congr fun x hx => by rw [hwork x hx]
  refine ⟨hiff, fun hnone => ?_⟩
  rw [h.agrees.worked hnone, h'.agrees.2 (hiff.mp hnone)]
  exact List.map_congr_left fun x hx => by rw [hwork x hx]

end InTurn

end JetTape.Batch
