import JetTape.Proofs.Replay.Items
import JetTape.Proofs.Scalar.Exact
import JetTape.Proofs.Tape.Spelling
import JetTape.Tape.Sweep

/-!
What a sweep of a recorded tape is given. A call block lies between two markers, the first of which
has an even number of markers before it. A mask may mark a block as a whole, and a load may stand
for an earlier row only. On a recorded tape these conditions say what the replay of its items needs.
-/
namespace JetTape

variable {F : Type}

namespace Tape

/-- How many call markers stand before instruction `i`. -/
def markersBefore (t : Tape F) (i : Nat) : Nat := (t.ops.toList.take i).count .callMarker

/-- Instruction `i` belongs to the call block that instruction `o` opens. -/
structure InBlock (t : Tape F) (o i : Nat) : Prop where
  marker : t.ops[o]? = some .callMarker
  opens : t.markersBefore o % 2 = 0
  le : o ≤ i
  before_end : t.markersBefore i ≤ t.markersBefore o + 1

/-- The mask leaves the last instruction unmarked, and with an opening marker it leaves all of the
block unmarked. -/
structure MaskOk (t : Tape F) (mask : Array Bool) : Prop where
  stop : mask.getD (t.ops.size - 1) false = false
  blocks : ∀ o i, t.InBlock o i → mask.getD o false = false → mask.getD i false = false

/-- Marked instructions are skipped, and so are all those of a block with a marked opening. -/
def Skipped (t : Tape F) (mask : Array Bool) (i : Nat) : Prop :=
  mask.getD i false = true ∨ ∃ o, t.InBlock o i ∧ mask.getD o false = true

/-- Every load stands for a row before its own, or for a constant. -/
def LoadsOk (t : Tape F) (resolved : Array Nat) : Prop :=
  ∀ i ins, t.instr i = .ok ins → ∀ s, ins.op = .load s →
    Jet.loadedRow ins.args resolved < ins.row

/-- There is room for the series of every call at order `q` over `r` directions. -/
def RoomOk [Scalar F] (t : Tape F) (q r : Nat) : Prop :=
  ∀ i ins, t.instr i = .ok ins → ins.op = .callMarker → ∀ site, t.callSite ins.args = .ok site →
    site.Room q r

theorem RoomOk.mono [Scalar F] {t : Tape F} {q r r' : Nat} (h : t.RoomOk q r) (hr : r' ≤ r) :
    t.RoomOk q r' :=
  fun i ins hi hop site hsite => (h i ins hi hop site hsite).mono hr

section Decidable

theorem lt_of_instr {t : Tape F} {i : Nat} {ins : Instr} (h : t.instr i = .ok ins) :
    i < t.ops.size :=
  (Array.getElem?_eq_some_iff.mp (of_instr h).1).1

instance {α ε : Type} (x : Except ε α) (p : α → Prop) [DecidablePred p] :
    Decidable (∀ a, x = .ok a → p a) :=
  match x with
  | .ok a => decidable_of_iff (p a) ⟨fun h _ ha => Except.ok.inj ha ▸ h, fun h => h a rfl⟩
  | .error _ => .isTrue fun _ h => nomatch h

instance (p : Source → Prop) [DecidablePred p] : Decidable (∀ s, p s) :=
  decidable_of_iff (p .var ∧ p .par)
    ⟨fun h s => match s with | .var => h.1 | .par => h.2, fun h => ⟨h .var, h .par⟩⟩

instance (t : Tape F) (o i : Nat) : Decidable (t.InBlock o i) :=
  decidable_of_iff (t.ops[o]? = some .callMarker ∧ t.markersBefore o % 2 = 0 ∧ o ≤ i ∧
      t.markersBefore i ≤ t.markersBefore o + 1)
    ⟨fun ⟨hm, ho, hle, he⟩ => ⟨hm, ho, hle, he⟩, fun ⟨hm, ho, hle, he⟩ => ⟨hm, ho, hle, he⟩⟩

instance (t : Tape F) (mask : Array Bool) (i : Nat) : Decidable (t.Skipped mask i) :=
  decidable_of_iff (mask.getD i false = true ∨
      ∃ o, o < i + 1 ∧ t.InBlock o i ∧ mask.getD o false = true)
    ⟨fun h => h.imp_right fun ⟨o, _, hin, ho⟩ => ⟨o, hin, ho⟩,
      fun h => h.imp_right fun ⟨o, hin, ho⟩ => ⟨o, Nat.lt_succ_of_le hin.le, hin, ho⟩⟩

theorem maskOk_iff {t : Tape F} {mask : Array Bool} :
    t.MaskOk mask ↔ mask.getD (t.ops.size - 1) false = false ∧ ∀ i < mask.size, ∀ o < i + 1,
      t.InBlock o i → mask.getD o false = false → mask.getD i false = false := by
  constructor
  · exact fun h => ⟨h.stop, fun i _ o _ => h.blocks o i⟩
  · rintro ⟨hstop, hblocks⟩
    refine ⟨hstop, ?_⟩
    intro o i hin ho
    by_cases hi : i < mask.size
    · exact hblocks i hi o (Nat.lt_succ_of_le hin.le) hin ho
    · simp [Array.getD, hi]

instance (t : Tape F) (mask : Array Bool) : Decidable (t.MaskOk mask) :=
  decidable_of_iff _ maskOk_iff.symm

instance (t : Tape F) (resolved : Array Nat) : Decidable (t.LoadsOk resolved) :=
  decidable_of_iff (∀ i < t.ops.size, ∀ ins, t.instr i = .ok ins → ∀ s, ins.op = .load s →
      Jet.loadedRow ins.args resolved < ins.row)
    ⟨fun h i ins hi => h i (lt_of_instr hi) ins hi, fun h i _ => h i⟩

instance [Scalar F] (site : CallSite F) (q r : Nat) : Decidable (site.Room q r) :=
  decidable_of_iff (Index.reserveEach site.argCount (q * r + 1) (Scalar.bytes F) = .ok () ∧
      Index.reserveEach site.resultCount (q * r + 1) (Scalar.bytes F) = .ok ())
    ⟨fun ⟨ha, hr⟩ => ⟨ha, hr⟩, fun ⟨ha, hr⟩ => ⟨ha, hr⟩⟩

instance [Scalar F] (t : Tape F) (q r : Nat) : Decidable (t.RoomOk q r) :=
  decidable_of_iff (∀ i < t.ops.size, ∀ ins, t.instr i = .ok ins → ins.op = .callMarker →
      ∀ site, t.callSite ins.args = .ok site → site.Room q r)
    ⟨fun h i ins hi => h i (lt_of_instr hi) ins hi, fun h i _ => h i⟩

end Decidable

/-- What a sweep of a tape works with besides the coefficients. -/
def plan (t : Tape F) (q : Nat) (mask : Array Bool) (resolved : Array Nat) : Plan F where
  order := q
  params := t.params
  registry := t.registry
  resolved := resolved
  mask := mask

theorem plan_for (t : Tape F) (q : Nat) (mask : Array Bool) (resolved : Array Nat) :
    (t.plan q mask resolved).For t.program :=
  ⟨rfl, rfl⟩

section Blocks

variable {t : Tape F} {n p k : Nat}

theorem count_block {b : Block} (hb : b.Valid n p k) :
    (b.instrs.map (·.op)).count .callMarker = 2 ∧
      ((b.opening :: (b.args ++ b.results)).map (·.op)).count .callMarker = 1 := by
  have hinside : ((b.args ++ b.results).map (·.op)).count .callMarker = 0 := by
    rw [List.count_eq_zero]
    intro hmem
    obtain ⟨ins, hins, hop⟩ := List.mem_map.mp hmem
    exact hb.not_marker ins hins hop
  rw [List.map_append, List.count_append, Nat.add_eq_zero_iff] at hinside
  simp [Block.instrs, hb.opens, hb.closes, hinside]

theorem count_item {item : Item} {m : Nat} (h : item.Valid n p m k) :
    (item.instrs.map (·.op)).count .callMarker % 2 = 0 := by
  cases item with
  | plain ins =>
    have hop : ins.op ≠ .callMarker := by
      have hplain := h.1.isPlain
      intro hop
      rw [hop] at hplain
      cases hplain
    simp [Item.instrs, hop]
  | call b =>
    have hb : b.Valid n p k := h
    have := (count_block hb).1
    simp only [Item.instrs]
    omega

theorem count_items {items : List Item} {m : Nat} (h : ValidItems p m k n items) :
    ((instrsOf items).map (·.op)).count .callMarker % 2 = 0 := by
  induction items generalizing n with
  | nil => rfl
  | cons item rest ih =>
    have hitem := count_item h.1
    have hrest := ih h.2
    rw [instrsOf_cons, List.map_append, List.count_append]
    omega

/-- A block after an even number of markers is the block that its first instruction opens. -/
theorem inBlock_of_block {pre post : List Instr} {b : Block} (hb : b.Valid n p k)
    (hops : t.ops.toList = (pre ++ b.instrs ++ post).map (·.op))
    (heven : (pre.map (·.op)).count .callMarker % 2 = 0) {c : Nat} (hc : c < b.instrs.length) :
    t.InBlock pre.length (pre.length + c) := by
  have hbefore : t.markersBefore pre.length = (pre.map (·.op)).count .callMarker := by
    unfold markersBefore
    rw [hops]
    simp
  refine ⟨?_, by rw [hbefore, heven], Nat.le_add_right _ _, ?_⟩
  · rw [← Array.getElem?_toList, hops]
    simp [Block.instrs, hb.opens]
  · have hsplit : b.instrs = (b.opening :: (b.args ++ b.results)) ++ [b.closing] := by
      simp [Block.instrs]
    have hlen : c ≤ (b.opening :: (b.args ++ b.results)).length := by
      rw [hsplit, List.length_append, List.length_singleton] at hc
      omega
    have htake : t.ops.toList.take (pre.length + c) = pre.map (·.op) ++
        ((b.opening :: (b.args ++ b.results)).map (·.op)).take c := by
      rw [hops, ← List.map_take, List.append_assoc, List.take_length_add_append, hsplit,
        List.append_assoc, List.take_append_of_le_length hlen, List.map_append, List.map_take]
    have hle := List.Sublist.count_le (a := Opcode.callMarker)
      (List.take_sublist c ((b.opening :: (b.args ++ b.results)).map (·.op)))
    rw [(count_block hb).2] at hle
    rw [hbefore, markersBefore, htake, List.count_append]
    omega

variable {q m : Nat} {mask : Array Bool} {resolved : Array Nat}

/-- Items after an even number of markers: the mask is consistent with them. -/
theorem MaskOk.consistent (h : t.MaskOk mask) {pre post : List Instr} {items : List Item}
    (hitems : ValidItems p m k n items)
    (hops : t.ops.toList = (pre ++ instrsOf items ++ post).map (·.op))
    (heven : (pre.map (·.op)).count .callMarker % 2 = 0) :
    Consistent mask pre.length items := by
  induction items generalizing pre n with
  | nil => trivial
  | cons item rest ih =>
    obtain ⟨hitem, hrest⟩ := hitems
    have hops' : t.ops.toList = (pre ++ item.instrs ++ (instrsOf rest ++ post)).map (·.op) := by
      simpa using hops
    constructor
    · intro hmark c hc
      cases item with
      | plain ins =>
        obtain rfl : c = 0 := by simpa [Item.size, Item.instrs] using hc
        exact hmark
      | call b => exact h.blocks _ _ (inBlock_of_block hitem hops' heven hc) hmark
    · have hlen : pre.length + item.size = (pre ++ item.instrs).length := by simp [Item.size]
      rw [hlen]
      apply ih hrest
      · simpa using hops
      · rw [List.map_append, List.count_append]
        have := count_item hitem
        omega

/-- The rows of the items that a sweep passes over belong to skipped instructions. -/
theorem skipped_of_passedRow {pre post : List Instr} {items : List Item}
    (hitems : ValidItems p m k n items)
    (hops : t.ops.toList = (pre ++ instrsOf items ++ post).map (·.op))
    (hholds : t.program.Holds pre.length (instrsOf items))
    (heven : (pre.map (·.op)).count .callMarker % 2 = 0) {v : Nat}
    (hv : (t.plan q mask resolved).PassedRow pre.length n items v) :
    ∃ i ins, t.instr i = .ok ins ∧ ins.Owns v ∧ t.Skipped mask i := by
  induction items generalizing pre n with
  | nil => cases hv
  | cons item rest ih =>
    obtain ⟨hitem, hrest⟩ := hitems
    have hops' : t.ops.toList = (pre ++ item.instrs ++ (instrsOf rest ++ post)).map (·.op) := by
      simpa using hops
    rw [instrsOf_cons] at hholds
    obtain ⟨hhere, hthere⟩ := Program.holds_append.mp hholds
    rcases hv with ⟨hmark, hn, hlt⟩ | hv
    · obtain ⟨ins, hins, howns⟩ := hitem.placed.exists_owner hn hlt
      obtain ⟨c, hc, rfl⟩ := List.getElem_of_mem hins
      refine ⟨pre.length + c, item.instrs[c], hhere c hc, howns, ?_⟩
      cases item with
      | plain ins =>
        obtain rfl : c = 0 := by simpa [Item.instrs] using hc
        exact Or.inl hmark
      | call b => exact Or.inr ⟨pre.length, inBlock_of_block hitem hops' heven hc, hmark⟩
    · have hlen : pre.length + item.size = (pre ++ item.instrs).length := by simp [Item.size]
      rw [hlen] at hv
      refine ih hrest ?_ ?_ ?_ hv
      · simpa using hops
      · simpa using hthere
      · rw [List.map_append, List.count_append]
        have := count_item hitem
        omega

end Blocks

section Spelled

variable {t : Tape F} {items : List Item} {tail : List Instr}

theorem Spells.program_holds (h : t.Spells items tail) (hc : t.Countable) :
    t.program.Holds 0 (headInstrs t.independents ++ instrsOf items ++ tail) := by
  intro i hi
  rw [Nat.zero_add]
  exact h.lists.instr_eq hc.args hi

theorem Spells.ops_eq (h : t.Spells items tail) :
    t.ops.toList = (headInstrs t.independents ++ instrsOf items ++ tail).map (·.op) := by
  rw [h.lists.ops]

/-- A tape without call markers has no call blocks. -/
theorem Spells.plain_of_no_marker (h : t.Spells items tail) (hcalls : Opcode.callMarker ∉ t.ops) :
    ∀ item ∈ items, ∃ ins, item = .plain ins := by
  intro item hitem
  cases item with
  | plain ins => exact ⟨ins, rfl⟩
  | call b =>
    obtain ⟨n, hvalid⟩ := h.valid.exists_valid hitem
    have hb : b.Valid n t.params.size t.registry.size := hvalid
    have hmem : b.opening ∈ instrsOf items :=
      List.mem_flatMap.mpr ⟨_, hitem, by simp [Item.instrs, Block.instrs]⟩
    refine absurd (Array.mem_toList_iff.mp ?_) hcalls
    rw [h.ops_eq, ← hb.opens]
    exact List.mem_map_of_mem (by simp [hmem])

theorem count_headInstrs (n : Nat) :
    ((headInstrs n).map (·.op)).count .callMarker = 0 := by
  rw [List.count_eq_zero]
  intro hmem
  obtain ⟨ins, hins, hop⟩ := List.mem_map.mp hmem
  simp only [headInstrs, List.mem_cons, List.mem_map] at hins
  rcases hins with rfl | ⟨i, -, rfl⟩ <;> cases hop

variable {q r : Nat} {mask : Array Bool} {resolved : Array Nat}

theorem Spells.consistent (h : t.Spells items tail) (hmask : t.MaskOk mask) :
    Consistent mask (t.independents + 1) items := by
  rw [← length_headInstrs]
  exact hmask.consistent h.valid h.ops_eq (by rw [count_headInstrs])

theorem Spells.skipped_of_passedRow (h : t.Spells items tail) (hc : t.Countable) {v : Nat}
    (hv : (t.plan q mask resolved).PassedRow (t.independents + 1) (1 + t.independents) items v) :
    ∃ i ins, t.instr i = .ok ins ∧ ins.Owns v ∧ t.Skipped mask i := by
  rw [← length_headInstrs t.independents] at hv
  have hholds := (Program.holds_append.mp (Program.holds_append.mp (h.program_holds hc)).1).2
  rw [Nat.zero_add] at hholds
  exact Tape.skipped_of_passedRow h.valid h.ops_eq hholds (by rw [count_headInstrs]) hv

/-- An instruction of a tape, found by its index. -/
theorem Spells.exists_instr (h : t.Spells items tail) (hc : t.Countable) {ins : Instr}
    (hins : ins ∈ instrsOf items) : ∃ i, t.instr i = .ok ins := by
  have hmem : ins ∈ headInstrs t.independents ++ instrsOf items ++ tail := by simp [hins]
  obtain ⟨i, hi, hget⟩ := List.getElem_of_mem hmem
  exact ⟨i, by rw [← hget]; exact h.lists.instr_eq hc.args hi⟩

/-- An instruction of a tape belongs to its head, whose rows are numbered like its instructions, or
to an item, or it is the `stop`. -/
theorem Spells.place_of_instr (h : t.Spells items tail) (hc : t.Countable) {i : Nat} {ins : Instr}
    (hins : t.instr i = .ok ins) :
    (i ≤ t.independents ∧ ins.row = i ∧ (ins.op = .start ∨ ins.op = .independent)) ∨
      (∃ c, i = t.independents + 1 + c ∧ (instrsOf items)[c]? = some ins) ∨ ins.op = .stop := by
  have hi := lt_of_instr hins
  rw [h.lists.size_eq] at hi
  have hget := List.getElem?_eq_getElem hi
  rw [← Except.ok.inj (hins.symm.trans (h.lists.instr_eq hc.args hi)), List.append_assoc,
    List.getElem?_append, length_headInstrs] at hget
  split at hget
  · left
    cases i with
    | zero =>
      cases hget
      exact ⟨Nat.zero_le _, rfl, Or.inl rfl⟩
    | succ i =>
      rename_i hlt
      have hlt : i < t.independents := Nat.lt_of_succ_lt_succ hlt
      simp only [headInstrs, List.getElem?_cons_succ, List.getElem?_map, List.getElem?_range hlt,
        Option.map_some, Option.some.injEq] at hget
      rw [← hget]
      exact ⟨hlt, rfl, Or.inr rfl⟩
  · right
    rename_i hle
    rw [List.getElem?_append] at hget
    split at hget
    · exact Or.inl ⟨i - (t.independents + 1), by omega, hget⟩
    · right
      rcases h.tail with rfl | rfl
      · simp at hget
      · rw [List.mem_singleton.mp (List.mem_of_getElem? hget)]

/-- An instruction that stands by itself is one of the items. -/
theorem Spells.exists_plain (h : t.Spells items tail) (hc : t.Countable) {i : Nat} {ins : Instr}
    (hins : t.instr i = .ok ins) (hplain : ins.op.isPlain = true) :
    ∃ before after, items = before ++ .plain ins :: after ∧
      i = t.independents + 1 + (instrsOf before).length := by
  rcases h.place_of_instr hc hins with ⟨-, -, hop | hop⟩ | ⟨c, rfl, hget⟩ | hop
  · cases hop ▸ hplain
  · cases hop ▸ hplain
  · obtain ⟨before, item, after, d, rfl, rfl, hd⟩ := exists_item_at hget
    obtain ⟨n, hitem⟩ := h.valid.exists_valid (List.mem_append_right before List.mem_cons_self)
    cases item with
    | plain ins' =>
      obtain ⟨rfl, rfl⟩ : d = 0 ∧ ins' = ins := by
        rcases d with _ | d
        · exact ⟨rfl, Option.some.inj hd⟩
        · cases hd
      exact ⟨before, after, rfl, rfl⟩
    | call b =>
      have hb : b.Valid n t.params.size t.registry.size := hitem
      rw [hb.not_plain ins (List.mem_of_getElem? hd)] at hplain
      cases hplain
  · cases hop ▸ hplain

theorem Spells.resultCount_le_row (h : t.Spells items tail) (hc : t.Countable) {i : Nat}
    {ins : Instr} (hins : t.instr i = .ok ins) (hplain : ins.op.isPlain = true) :
    ins.op.resultCount ≤ ins.row := by
  obtain ⟨before, after, rfl, -⟩ := h.exists_plain hc hins hplain
  obtain ⟨-, ⟨-, hrow, -⟩, -⟩ := validItems_append.mp h.valid
  omega

theorem Spells.row_pos (h : t.Spells items tail) (hc : t.Countable) {i : Nat} {ins : Instr}
    (hins : t.instr i = .ok ins) (hplain : ins.op.isPlain = true)
    (hcount : 0 < ins.op.resultCount) : 0 < ins.row :=
  Nat.lt_of_lt_of_le hcount (h.resultCount_le_row hc hins hplain)

theorem Spells.size_le (h : t.Spells items tail) (hc : t.Countable) {item : Item}
    (hitem : item ∈ items) : item.size < Index.argBound := by
  obtain ⟨before, after, rfl⟩ := List.append_of_mem hitem
  have hsize := h.size_eq
  have := hc.instrs
  rw [instrsOf_append, instrsOf_cons, List.length_append, List.length_append] at hsize
  unfold Item.size
  omega

theorem Spells.counted (h : t.Spells items tail) (hc : t.Countable) {b : Block}
    (hb : .call b ∈ items) :
    b.args.length < Index.argBound ∧ b.results.length < Index.argBound := by
  have hlt := h.size_le hc hb
  simp only [Item.size, Item.instrs, Block.instrs, List.length_append, List.length_cons] at hlt
  omega

/-- The items of a tape are fit for a sweep. -/
theorem Spells.serves (h : t.Spells items tail) (hc : t.Countable) (hloads : t.LoadsOk resolved) :
    ∀ item ∈ items, (t.plan q mask resolved).Serves item := by
  intro item hitem
  refine ⟨?_, fun b hb => h.counted hc (hb ▸ hitem)⟩
  intro ins hins
  have hmem : ins ∈ instrsOf items := List.mem_flatMap.mpr ⟨item, hitem, hins⟩
  refine ⟨h.args_length_lt hc hmem, ?_⟩
  intro s hop
  obtain ⟨i, hi⟩ := h.exists_instr hc hmem
  exact hloads i ins hi s hop

/-- Where there is room for every call no call block faults when it opens. -/
theorem Spells.openFault?_eq_none [Scalar F] (h : t.Spells items tail) (hc : t.Countable)
    (hroom : t.RoomOk q r) (hr : 0 < r) :
    ∀ item ∈ items, (t.plan q mask resolved).openFault? r item = none := by
  intro item hitem
  cases item with
  | plain ins => rfl
  | call b =>
    obtain ⟨n, hb⟩ := h.valid.exists_valid hitem
    have hb : b.Valid n t.params.size t.registry.size := hb
    obtain ⟨hargs, hresults⟩ := h.counted hc hitem
    have hmem : b.opening ∈ instrsOf items :=
      List.mem_flatMap.mpr ⟨_, hitem, by simp [Item.instrs, Block.instrs]⟩
    obtain ⟨i, hi⟩ := h.exists_instr hc hmem
    obtain ⟨operator, hop, hsite⟩ :=
      Plan.exists_site (p := t.plan q mask resolved) hb hargs hresults
    have hnew := (hroom i b.opening hi hb.opens (b.site operator) hsite).new_eq hr
    simp only [Plan.openFault?, hop]
    rw [show (t.plan q mask resolved).order = q from rfl, hnew]

end Spelled

end Tape

/-- An operator that answers with the results that it is given, zero where one is to be computed. -/
def Operator.echo : Operator F where
  name := "echo"
  forward request := .accept ⟨request.results, rfl⟩

/-- A session with a product, a load, a call, a sum and a sine. -/
def sampleSession (operator : Operator ℚ) : List (Recorder.Action ℚ) :=
  [.independents 2, .operation (.arithmetic .mulVV) [1, 2], .parameter 3, .register operator,
    .load 0 (.var 1), .call 0 7 [.var 3, .par 0] [.var, .constant 5],
    .operation (.arithmetic .addVV) [4, 5], .operation (.elementary .sin) [6], .finish]

def sampleTape : Tape ℚ := .ofSession (sampleSession .echo)

/-- A mask that skips the sum of the sample tape. -/
def sampleMask : Array Bool := (Array.replicate 14 false).setIfInBounds 11 true

theorem sampleTape_recorded : sampleTape.Recorded := Tape.ofSession_recorded (by decide +kernel)

theorem sampleTape_countable : sampleTape.Countable :=
  ⟨by decide +kernel, by decide +kernel⟩

/-- The sample load stands for the product, and the sum may be skipped. -/
example : sampleTape.LoadsOk #[3] ∧ sampleTape.MaskOk sampleMask := by
  decide +kernel

end JetTape
