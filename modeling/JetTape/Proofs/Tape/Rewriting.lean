import JetTape.Proofs.Tape.Composition

/-!
Rewritten tapes. A rule gives every instruction others that may stand in its place: plain
instructions with the same rows for one outside call blocks, another argument for a call argument,
and itself for any other. A tape whose instructions have given way to these has the shape of a
recording again, and its rows are what they were.
-/
namespace JetTape

variable {F : Type}

/-- The block with other arguments. -/
def Block.rewrite (rule : Instr → List Instr) (b : Block) : Block :=
  { b with args := b.args.flatMap rule }

/-- What the rule puts in the place of an item. -/
def Item.rewrite (rule : Instr → List Instr) : Item → List Item
  | .plain ins => (rule ins).map .plain
  | .call b => [.call (b.rewrite rule)]

/-- The rule keeps all instructions but call arguments and those outside call blocks. -/
def KeepsRest (rule : Instr → List Instr) : Prop :=
  ∀ ins, ins.op.isPlain = false → (∀ kind, ins.op ≠ .callArg kind) → rule ins = [ins]

/-- What the rule puts in the place of an item is as it is recorded after `n` rows, `p` parameters,
`m` loads and `k` operators, and it has the rows of the item. -/
def Item.GivesWay (n p m k : Nat) (rule : Instr → List Instr) : Item → Prop
  | .plain ins => ValidItems p m k n ((rule ins).map .plain) ∧
    rowCount (rule ins) = ins.op.resultCount
  | .call b => ∀ ins ∈ b.args, ∃ a : Operand, a.Valid n p ∧
    rule ins = [⟨.callArg a.source, [a.index], ins.row⟩]

section Items

variable {n p p' m k : Nat} {rule : Instr → List Instr} {items : List Item}

theorem Block.rewrite_of_kept {b : Block} (hkept : ∀ ins ∈ b.args, rule ins = [ins]) :
    b.rewrite rule = b := by
  rw [rewrite, List.flatMap_congr hkept, List.flatMap_singleton']

/-- An item none of whose instructions gives way to others stays. -/
theorem Item.rewrite_of_kept {item : Item} (hkept : ∀ ins ∈ item.instrs, rule ins = [ins]) :
    item.rewrite rule = [item] := by
  cases item with
  | plain ins => rw [rewrite, hkept ins List.mem_cons_self, List.map_singleton]
  | call b =>
    rw [rewrite, b.rewrite_of_kept fun ins hins => hkept ins (by simp [instrs, Block.instrs, hins])]

theorem Item.givesWay_of_kept {item : Item} (h : item.Valid n p m k) (hp : p ≤ p')
    (hkept : ∀ ins ∈ item.instrs, rule ins = [ins]) : item.GivesWay n p' m k rule := by
  cases item with
  | plain ins =>
    rw [GivesWay, hkept ins List.mem_cons_self]
    exact ⟨⟨h.mono hp (Nat.le_refl m) (Nat.le_refl k), trivial⟩, rfl⟩
  | call b =>
    have hb : b.Valid n p k := h
    intro ins hins
    obtain ⟨a, ha, hop, hargs⟩ := hb.args ins hins
    refine ⟨a, ha.mono (Nat.le_refl n) hp, ?_⟩
    rw [hkept ins (by simp [instrs, Block.instrs, hins]), ← hop, ← hargs]

/-- Instructions that give way to others with the same rows. -/
theorem EachFrom.placed_flatMap {l : List Instr}
    (h : EachFrom (fun n ins => Placed n (rule ins) ∧ rowCount (rule ins) = ins.op.resultCount)
      n l) : Placed n (l.flatMap rule) ∧ rowCount (l.flatMap rule) = rowCount l := by
  induction l generalizing n with
  | nil => exact ⟨trivial, rfl⟩
  | cons ins l ih =>
    obtain ⟨⟨hplaced, hcount⟩, hrest⟩ := h
    obtain ⟨hplaced', hcount'⟩ := ih hrest
    rw [List.flatMap_cons, rowCount_append, rowCount_cons, hcount, hcount']
    exact ⟨placed_append.mpr ⟨hplaced, hcount ▸ hplaced'⟩, rfl⟩

namespace Block.Valid

variable {b : Block} (hb : b.Valid n p k) (hkeeps : KeepsRest rule)

include hkeeps

theorem rule_marker {ins : Instr} (hins : ins.op = .callMarker) : rule ins = [ins] :=
  hkeeps ins (by rw [hins]; rfl) (by simp [hins])

include hb

theorem rule_result {ins : Instr} (hins : ins ∈ b.results) : rule ins = [ins] := by
  rcases hb.results ins hins with hop | ⟨i, -, hop, -⟩
  · exact hkeeps ins (by rw [hop]; rfl) (by simp [hop])
  · exact hkeeps ins (by rw [hop]; rfl) (by simp [hop])

theorem instrs_rewrite : (b.rewrite rule).instrs = b.instrs.flatMap rule := by
  have hresults : b.results.flatMap rule = b.results :=
    (List.flatMap_congr fun ins hins => hb.rule_result hkeeps hins).trans
      (List.flatMap_singleton' _)
  simp [Block.instrs, Block.rewrite, hresults, rule_marker hkeeps hb.opens,
    rule_marker hkeeps hb.closes]

theorem rewrite (hp : p ≤ p') (h : (Item.call b).GivesWay n p' m k rule) :
    (b.rewrite rule).Valid n p' k ∧ rowCount (b.rewrite rule).instrs = rowCount b.instrs := by
  have hlength : (b.args.flatMap rule).length = b.args.length := by
    have hone : b.args.map (fun ins => (rule ins).length) = b.args.map fun _ => 1 := by
      refine List.map_congr_left fun ins hins => ?_
      obtain ⟨a, -, hrule⟩ := h ins hins
      rw [hrule]
      rfl
    rw [List.length_flatMap, hone]
    simp
  have hplaced : EachFrom (fun n ins => Placed n (rule ins) ∧
      rowCount (rule ins) = ins.op.resultCount) n b.instrs := by
    refine hb.placed.eachFrom.imp fun n ins hins hrow => ?_
    have hkept (hrule : rule ins = [ins]) :
        Placed n (rule ins) ∧ rowCount (rule ins) = ins.op.resultCount := by
      rw [hrule]
      exact ⟨⟨hrow, trivial⟩, rfl⟩
    simp only [Block.instrs, List.mem_append, List.mem_cons, List.not_mem_nil, or_false] at hins
    rcases hins with ((rfl | hins) | hins) | rfl
    · exact hkept (rule_marker hkeeps hb.opens)
    · obtain ⟨a, -, hop, -⟩ := hb.args ins hins
      obtain ⟨a', -, hrule⟩ := h ins hins
      rw [hop] at hrow ⊢
      rw [hrule]
      exact ⟨⟨hrow, trivial⟩, rfl⟩
    · exact hkept (hb.rule_result hkeeps hins)
    · exact hkept (rule_marker hkeeps hb.closes)
  obtain ⟨hplaced, hcount⟩ := hplaced.placed_flatMap
  rw [← hb.instrs_rewrite hkeeps] at hplaced hcount
  obtain ⟨handle, callId, hlt, hheader⟩ := hb.header
  refine ⟨?_, hcount⟩
  exact {
    opens := hb.opens
    closes := hb.closes
    header := ⟨handle, callId, hlt, by rw [Block.rewrite, hlength]; exact hheader⟩
    repeats := hb.repeats
    args := by
      intro ins hins
      obtain ⟨arg, harg, hins⟩ := List.mem_flatMap.mp hins
      obtain ⟨a, ha, hrule⟩ := h arg harg
      rw [hrule] at hins
      obtain rfl := List.mem_singleton.mp hins
      exact ⟨a, ha, rfl, rfl⟩
    results := by
      intro ins hins
      rcases hb.results ins hins with hvar | ⟨i, hi, hpar⟩
      · exact .inl hvar
      · exact .inr ⟨i, Nat.lt_of_lt_of_le hi hp, hpar⟩
    placed := hplaced }

end Block.Valid

/-- Items that give way to others with the same rows. -/
theorem ValidItems.rewrite (h : ValidItems p m k n items) (hp : p ≤ p') (hkeeps : KeepsRest rule)
    (hitem : ∀ n, ∀ item ∈ items, item.Valid n p m k → item.GivesWay n p' m k rule) :
    ValidItems p' m k n (items.flatMap (Item.rewrite rule)) ∧
      instrsOf (items.flatMap (Item.rewrite rule)) = (instrsOf items).flatMap rule ∧
      rowCount ((instrsOf items).flatMap rule) = rowCount (instrsOf items) := by
  induction items generalizing n with
  | nil => exact ⟨trivial, rfl, rfl⟩
  | cons item items ih =>
    obtain ⟨hfirst, hrest⟩ := h
    obtain ⟨hgives, hitem⟩ := List.forall_mem_cons.mp fun item hmem n => hitem n item hmem
    have hgives := hgives n hfirst
    obtain ⟨hvalid, hinstrs, hcount⟩ := ih hrest fun n item hmem => hitem item hmem n
    -- What the rule puts in the place of the first item.
    have hhead : ValidItems p' m k n (item.rewrite rule) ∧
        instrsOf (item.rewrite rule) = item.instrs.flatMap rule ∧
        rowCount (item.instrs.flatMap rule) = rowCount item.instrs := by
      cases item with
      | plain ins =>
        refine ⟨hgives.1, ?_, ?_⟩
        · simp [Item.rewrite, Item.instrs]
        · simp [Item.instrs, hgives.2]
      | call b =>
        have hb : b.Valid n p k := hfirst
        obtain ⟨hb', hcount⟩ := hb.rewrite hkeeps hp hgives
        rw [hb.instrs_rewrite hkeeps] at hcount
        refine ⟨⟨hb', trivial⟩, ?_, hcount⟩
        rw [Item.rewrite, instrsOf_cons, instrsOf_nil, List.append_nil]
        exact hb.instrs_rewrite hkeeps
    obtain ⟨hhead, hheadInstrs, hheadCount⟩ := hhead
    rw [List.flatMap_cons, instrsOf_append, instrsOf_cons, List.flatMap_append, rowCount_append,
      rowCount_append, hheadInstrs, hinstrs, hheadCount, hcount]
    refine ⟨validItems_append.mpr ⟨hhead, ?_⟩, rfl, rfl⟩
    rw [hheadInstrs, hheadCount]
    exact hvalid

end Items

namespace Tape

/-- The tables of the tape with other parameters, and no instructions yet. -/
def blank (t : Tape F) (params : Array F) : Tape F where
  ops := #[]
  argStart := #[0]
  args := #[]
  resultRows := #[]
  params := params
  independents := t.independents
  rows := 0
  loads := t.loads
  registry := t.registry

/-- The tape with other parameters and with every instruction rewritten. -/
def rewrite (t : Tape F) (params : Array F) (rule : Instr → List Instr) : Tape F :=
  (t.blank params).extend (t.instrs.flatMap rule)

section Rewrite

variable {t : Tape F} {params : Array F} {rule : Instr → List Instr} {items : List Item}
variable {tail : List Instr}

theorem lists_blank (t : Tape F) (params : Array F) : (t.blank params).Lists [] where
  ops := rfl
  args := rfl
  starts_size := rfl
  starts i hi := by
    rw [Nat.le_zero.mp hi]
    rfl
  resultRows := rfl

@[simp] theorem params_rewrite : (t.rewrite params rule).params = params :=
  (extend_other (t.blank params) _).1

@[simp] theorem independents_rewrite : (t.rewrite params rule).independents = t.independents :=
  (extend_other (t.blank params) _).2.1

@[simp] theorem loads_rewrite : (t.rewrite params rule).loads = t.loads :=
  (extend_other (t.blank params) _).2.2.1

@[simp] theorem registry_rewrite : (t.rewrite params rule).registry = t.registry :=
  (extend_other (t.blank params) _).2.2.2

variable (h : t.Spells items tail) (hc : t.Countable) (hkeeps : KeepsRest rule)
variable (hparams : t.params.size ≤ params.size)
variable (hitem : ∀ n, ∀ item ∈ items, item.Valid n t.params.size t.loads t.registry.size →
  item.GivesWay n params.size t.loads t.registry.size rule)

include h hc hkeeps

theorem Spells.instrs_rewrite : t.instrs.flatMap rule =
    headInstrs t.independents ++ (instrsOf items).flatMap rule ++ tail := by
  have hhead : (headInstrs t.independents).flatMap rule = headInstrs t.independents := by
    refine (List.flatMap_congr fun ins hins => ?_).trans (List.flatMap_singleton' _)
    rcases (op_headInstrs ins hins).1 with hop | hop
    · exact hkeeps ins (by rw [hop]; rfl) (by simp [hop])
    · exact hkeeps ins (by rw [hop]; rfl) (by simp [hop])
  have htail : tail.flatMap rule = tail := by
    rcases h.tail with rfl | rfl
    · rfl
    · simp [hkeeps ⟨.stop, [], t.rows - 1⟩ rfl (by simp)]
  rw [h.instrs_eq hc, List.flatMap_append, List.flatMap_append, hhead, htail]

include hparams hitem

/-- The rewritten tape has the rows of the tape, and it holds the rewritten items. -/
theorem Spells.rewrite : (t.rewrite params rule).rows = t.rows ∧
    (t.rewrite params rule).Spells (items.flatMap (Item.rewrite rule)) tail := by
  obtain ⟨hvalid, hinstrs, hcount⟩ := h.valid.rewrite hparams hkeeps hitem
  have hpos := h.rows_pos
  have htail : rowCount tail = 0 := by rcases h.tail with rfl | rfl <;> rfl
  have hrows : (t.rewrite params rule).rows = t.rows := by
    rw [Tape.rewrite, rows_extend, h.instrs_rewrite hc hkeeps, rowCount_append, rowCount_append,
      (placed_headInstrs _).2, htail, hcount, h.rows]
    exact Nat.zero_add _
  refine ⟨hrows, ?_, ?_, ?_, hrows ▸ h.bound, hrows ▸ h.tail⟩
  · rw [independents_rewrite, hinstrs, ← h.instrs_rewrite hc hkeeps]
    refine (lists_blank t params).extend ?_
    rw [h.instrs_rewrite hc hkeeps, placed_append, placed_append, rowCount_append,
      (placed_headInstrs _).2, hcount, ← h.rows, ← hinstrs]
    have hnone : (t.blank params).rows = 0 := rfl
    rw [hnone, Nat.zero_add]
    refine ⟨⟨(placed_headInstrs _).1, hvalid.placed⟩, ?_⟩
    rcases h.tail with rfl | rfl
    · trivial
    · exact ⟨by simp only [Opcode.resultCount]; omega, trivial⟩
  · rw [params_rewrite, loads_rewrite, registry_rewrite, independents_rewrite]
    exact hvalid
  · rw [hrows, independents_rewrite, hinstrs, hcount]
    exact h.rows

/-- With one instruction in the place of each, and as many arguments, there is as much to count. -/
theorem Spells.countable_rewrite (hone : ∀ ins, (rule ins).length = 1)
    (hargs : ∀ ins, ((rule ins).flatMap (·.args)).length = ins.args.length) :
    (t.rewrite params rule).Countable := by
  obtain ⟨-, hinstrs, -⟩ := h.valid.rewrite hparams hkeeps hitem
  have hlists := (h.rewrite hc hkeeps hparams hitem).2.lists
  rw [independents_rewrite, hinstrs, ← h.instrs_rewrite hc hkeeps, h.instrs_eq hc] at hlists
  constructor
  · refine lt_of_eq_of_lt ?_ hc.instrs
    rw [hlists.size_eq, h.lists.size_eq, List.length_flatMap]
    simp [hone]
  · refine lt_of_eq_of_lt ?_ hc.args
    rw [hlists.args, h.lists.args, List.size_toArray, List.size_toArray, List.flatMap_assoc,
      List.length_flatMap, List.length_flatMap]
    simp only [hargs]

end Rewrite

end Tape

end JetTape
