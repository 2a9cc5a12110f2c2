import JetTape.Proofs.Replay.Reads

/-!
Sweeps that pass over items. Where nothing that is replayed depends on rows of what is passed over,
a sweep that passes over it asks operators the same as one that replays everything, and it leaves
the same rows apart from those that it passes over.
-/
namespace JetTape

variable {F : Type}

namespace Jet

/-- The jets agree on the rows in `S`, and at order 0 on all rows. -/
structure SameOn (S : Nat → Prop) (j j' : Jet F) : Prop where
  rows : ∀ v, S v → j v = j' v
  values : ∀ v, j v 0 = j' v 0

namespace SameOn

variable {S : Nat → Prop} {q : Nat} {j j' : Jet F}

theorem refl (S : Nat → Prop) (j : Jet F) : SameOn S j j := ⟨fun _ _ => rfl, fun _ => rfl⟩

theorem set {v : Nat} {x : F} (h : SameOn S j j') : SameOn S (j.set v q x) (j'.set v q x) where
  rows w hw := by
    funext k
    simp only [Jet.set, h.rows w hw]
  values w := by
    simp only [Jet.set, h.values w]

theorem fill {i : Nat} {answer : Nat → F} {l : List Instr} (h : SameOn S j j') :
    SameOn S (j.fill q answer i l) (j'.fill q answer i l) := by
  induction l generalizing i j j' with
  | nil => exact h
  | cons ins l ih =>
    unfold Jet.fill
    apply ih
    split
    · exact h.set
    · exact h

/-- A row outside `S` may change above order 0. -/
theorem of_ne {g : Jet F} (h : SameOn S j j')
    (hg : ∀ v k, S v ∨ k = 0 → g v k = j v k) : SameOn S g j' where
  rows v hv := by
    rw [← h.rows v hv]
    exact funext fun k => hg v k (Or.inl hv)
  values v := (hg v 0 (Or.inr rfl)).trans (h.values v)

theorem agreeOn (h : SameOn S j j') (q : Nat) : AgreeOn q S S j j' where
  values := h.values
  below v hv k _ := congrFun (h.rows v hv) k
  upTo v hv k _ := congrFun (h.rows v hv) k

/-- An instruction that depends on rows in `S` and owns rows in `S` keeps the agreement. -/
theorem advance [Scalar F] {params : Array F} {resolved : Array Nat} {ins : Instr} {n m c : Nat}
    (hq : 0 < q) (h : SameOn S j j') (hvalid : Instr.Valid n m c ins.op ins.args)
    (hplaced : ins.row + 1 = n + ins.op.resultCount)
    (hreads : ∀ v ∈ j.operands params resolved ins, S v) (hown : ∀ v, ins.Owns v → S v) :
    SameOn S (j.advance q params resolved ins) (j'.advance q params resolved ins) := by
  have hadvanced := (h.agreeOn q).advance hq hvalid.isPlain hreads hown
  refine ⟨fun v hv => funext fun k => ?_, hadvanced.values⟩
  by_cases hk : k = q
  · exact hadvanced.upTo v (Or.inr hv) k (Nat.le_of_eq hk)
  · rw [advance_of_ne hvalid hplaced (Or.inl hk), advance_of_ne hvalid hplaced (Or.inl hk),
      h.rows v hv]

end SameOn

end Jet

open Jet (SameOn)

variable {S : Nat → Prop} {j j' : Jet F}

namespace Plan

variable [Scalar F] {p : Plan F}

/-- The plan with another mask. -/
def withMask (p : Plan F) (mask : Array Bool) : Plan F := { p with mask }

theorem Inside.of_values {item : Item} (h : p.Inside S S j item) (hvalues : ∀ v, j v 0 = j' v 0) :
    p.Inside S S j' item := by
  intro ins hins
  rw [← Jet.operands_congr hvalues]
  exact h ins hins

/-- An item inside `S` keeps the agreement on `S`. -/
theorem sameOn_advance {item : Item} {n m s k : Nat} (hq : 0 < p.order) (h : SameOn S j j')
    (hvalid : item.Valid n m s k) (hitem : p.Inside S S j item) :
    SameOn S (p.advance item j) (p.advance item j') := by
  cases item with
  | plain ins =>
    obtain ⟨hreads, hown⟩ := hitem ins List.mem_cons_self
    exact h.advance hq hvalid.1 hvalid.2.1 hreads hown
  | call b =>
    rw [advance, advance, answer_congr (h.agreeOn p.order) hvalid hitem]
    cases p.answer b j' with
    | ok results => exact h.fill
    | error halt => exact h

variable {r i n : Nat} {items : List Item} {mask : Array Bool} {js js' : Nat → Jet F}

/-- Where the replay of an item comes to its end, so it does over jets that agree, whatever the mask
is. -/
theorem sameOn_replayItem {item : Item} {m s k : Nat} (hq : 0 < p.order)
    (h : ∀ l < r, SameOn S (js l) (js' l)) (hvalid : item.Valid n m s k)
    (hitem : ∀ l < r, p.Inside S S (js l) item) (hnone : (p.replayItem r item js).stop = none) :
    ((p.withMask mask).replayItem r item js').stop = none ∧
      ∀ l < r, SameOn S ((p.replayItem r item js).jets l)
        (((p.withMask mask).replayItem r item js').jets l) := by
  obtain ⟨hopen, hhalt⟩ := replayItem_eq_none_iff.mp hnone
  have hnone' : ((p.withMask mask).replayItem r item js').stop = none := by
    refine replayItem_eq_none_iff.mpr ⟨hopen, fun l hl => ?_⟩
    exact (halt?_congr ((h l hl).agreeOn p.order) hvalid (hitem l hl)).symm.trans (hhalt l hl)
  refine ⟨hnone', fun l hl => ?_⟩
  rw [replayItem_jets hnone, replayItem_jets hnone']
  exact sameOn_advance hq (h l hl) hvalid (hitem l hl)

/-- If the sweep that replays all items comes to its end, so does a sweep that passes over items on
whose rows no other depends, and they agree on all rows but those. -/
theorem sameOn_replayItems {m s k : Nat} {j₀ : Jet F} (hq : 0 < p.order)
    (hall : ∀ i, p.marks i = false) (h : ∀ l < r, SameOn S (js l) (js' l))
    (hvalues : ∀ l < r, ∀ v, j₀ v 0 = js l v 0) (hitems : ValidItems m s k n items)
    (hpassed : ∀ v, (p.withMask mask).PassedRow i n items v → ¬ S v)
    (hinside : ∀ before item after, items = before ++ item :: after →
      mask.getD (i + (instrsOf before).length) false = false → p.Inside S S j₀ item)
    (hnone : (p.replayItems r i items js).stop = none) :
    ((p.withMask mask).replayItems r i items js').stop = none ∧
      ∀ l < r, SameOn S ((p.replayItems r i items js).jets l)
        (((p.withMask mask).replayItems r i items js').jets l) := by
  induction items generalizing i n js js' with
  | nil => exact ⟨rfl, h⟩
  | cons item rest ih =>
    obtain ⟨hitem, hrest⟩ := hitems
    have hinside' : ∀ before item' after, rest = before ++ item' :: after →
        mask.getD (i + item.size + (instrsOf before).length) false = false →
          p.Inside S S j₀ item' := by
      intro before item' after hsplit hmark
      refine hinside (item :: before) item' after (by rw [hsplit]; rfl) ?_
      rw [instrsOf_cons, List.length_append, ← Nat.add_assoc]
      exact hmark
    cases hfirst : (p.replayItem r item js).stop with
    | some stop =>
      rw [replayItems_stopped (hall i) hfirst, hfirst] at hnone
      cases hnone
    | none =>
      rw [replayItems_went_on (hall i) hfirst] at hnone ⊢
      have hvalues' : ∀ l < r, ∀ v, j₀ v 0 = (p.replayItem r item js).jets l v 0 := by
        intro l hl v
        rw [replayItem_of_ne hitem (Or.inl (Nat.ne_of_lt hq)), hvalues l hl v]
      cases hmark : (p.withMask mask).marks i with
      | true =>
        rw [replayItems_marked hmark]
        refine ih (fun l hl => (h l hl).of_ne ?_) hvalues' hrest (fun v hv => hpassed v (Or.inr hv))
          hinside' hnone
        -- The rows of the item are none of those on which the jets agree.
        intro v o hv
        apply replayItem_of_ne hitem
        rcases hv with hv | rfl
        · refine Or.inr ?_
          by_contra hin
          exact hpassed v (Or.inl ⟨hmark, by omega, by omega⟩) hv
        · exact Or.inl (Nat.ne_of_lt hq)
      | false =>
        have hhere : ∀ l < r, p.Inside S S (js l) item := fun l hl =>
          (hinside [] item rest rfl hmark).of_values (hvalues l hl)
        obtain ⟨hfirst', hsame⟩ := sameOn_replayItem hq h hitem hhere hfirst
        rw [replayItems_went_on hmark hfirst']
        exact ih hsame hvalues' hrest (fun v hv => hpassed v (Or.inr hv)) hinside' hnone

end Plan

end JetTape
