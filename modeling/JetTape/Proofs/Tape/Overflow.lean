import JetTape.Proofs.Sweep.Run
import JetTape.Proofs.Tape.Composition

/-!
Tapes with more words than can be counted. Where an argument list begins is kept in 32 bits, and
recording does not look whether it fits. Behind `2 ^ 32` words the lists are looked for at the front
of the table again, so instructions are read back with the words of others. `Countable` rules this
out; it cannot be left out, since a skip may have as many entries as one likes.
-/
namespace JetTape

/-- A slice that ends in the first part of a table is a slice of that part. -/
theorem Index.slice_append {α : Type} {xs ys : Array α} {a b : Nat} (ha : a ≤ xs.size)
    (hb : b ≤ xs.size) : slice (xs ++ ys) a b = slice xs a b := by
  have hsize : (xs ++ ys).size = xs.size + ys.size := Array.size_append
  rw [slice, slice, if_neg (show ¬ (xs ++ ys).size < a by omega),
    if_neg (show ¬ (xs ++ ys).size < b by omega), if_neg (show ¬ xs.size < a by omega),
    if_neg (show ¬ xs.size < b by omega)]
  split
  · rfl
  · simp [hb]

/-- Instructions with their arguments read off a table of words, one list after the other. -/
def reread : List Nat → List Instr → List Instr
  | _, [] => []
  | words, ins :: l =>
    { ins with args := words.take ins.args.length } :: reread (words.drop ins.args.length) l

section Reread

variable {words : List Nat} {l : List Instr}

@[simp] theorem length_reread : (reread words l).length = l.length := by
  induction l generalizing words with
  | nil => rfl
  | cons ins l ih => exact congrArg Nat.succ ih

theorem op_reread : (reread words l).map (·.op) = l.map (·.op) := by
  induction l generalizing words with
  | nil => rfl
  | cons ins l ih => exact congrArg (ins.op :: ·) ih

theorem row_reread : (reread words l).map (·.row) = l.map (·.row) := by
  induction l generalizing words with
  | nil => rfl
  | cons ins l ih => exact congrArg (ins.row :: ·) ih

@[simp] theorem rowCount_reread : rowCount (reread words l) = rowCount l := by
  induction l generalizing words with
  | nil => rfl
  | cons ins l ih => exact congrArg (ins.op.resultCount + ·) ih

/-- Words behind those that the lists take do not matter. -/
theorem reread_append (hwords : (l.flatMap (·.args)).length ≤ words.length) (more : List Nat) :
    reread (words ++ more) l = reread words l := by
  induction l generalizing words with
  | nil => rfl
  | cons ins l ih =>
    rw [List.flatMap_cons, List.length_append] at hwords
    rw [reread, reread, List.take_append_of_le_length (by omega),
      List.drop_append_of_le_length (by omega), ih (by rw [List.length_drop]; omega)]

theorem placed_reread {n : Nat} (h : Placed n l) : Placed n (reread words l) := by
  induction l generalizing words n with
  | nil => trivial
  | cons ins l ih => exact ⟨h.1, ih h.2⟩

/-- The lists take the words in their order. -/
theorem args_reread (hwords : (l.flatMap (·.args)).length ≤ words.length) :
    (reread words l).flatMap (·.args) = words.take (l.flatMap (·.args)).length := by
  induction l generalizing words with
  | nil => rfl
  | cons ins l ih =>
    rw [List.flatMap_cons, List.length_append] at hwords
    rw [reread, List.flatMap_cons, ih (by rw [List.length_drop]; omega), List.flatMap_cons,
      List.length_append, List.take_add]

/-- The lists have the lengths that they had. -/
theorem length_args_reread (hwords : (l.flatMap (·.args)).length ≤ words.length) (i : Nat) :
    (((reread words l).take i).flatMap (·.args)).length =
      ((l.take i).flatMap (·.args)).length := by
  induction l generalizing words i with
  | nil => rfl
  | cons ins l ih =>
    rw [List.flatMap_cons, List.length_append] at hwords
    cases i with
    | zero => rfl
    | succ i =>
      rw [reread, List.take_succ_cons, List.take_succ_cons, List.flatMap_cons, List.flatMap_cons,
        List.length_append, List.length_append, ih (by rw [List.length_drop]; omega),
        List.length_take]
      omega

end Reread

variable {F : Type}

namespace Tape

/-- Tables with the same operations and rows are read back alike if the argument lists begin at the
same places, counted in 32 bits, and the words of the one are the first words of the other. -/
theorem Lists.instr_eq_instr {t s : Tape F} {l d : List Instr} (ht : t.Lists l) (hs : s.Lists d)
    (hops : l.map (·.op) = d.map (·.op)) (hrows : l.map (·.row) = d.map (·.row))
    (hwords : d.flatMap (·.args) <+: l.flatMap (·.args))
    (hstarts : ∀ i ≤ d.length, Index.toArg ((l.take i).flatMap (·.args)).length =
      ((d.take i).flatMap (·.args)).length) : t.instr = s.instr := by
  have hlength : l.length = d.length := by simpa using congrArg List.length hops
  have hbefore (i : Nat) : ((d.take i).flatMap (·.args)).length ≤ s.args.size := by
    rw [hs.args, List.size_toArray]
    exact words_take_le d i
  have hargStart (i : Nat) (hi : i ≤ d.length) :
      s.argStart[i]? = some ((d.take i).flatMap (·.args)).length := by
    rw [hs.starts i hi, ← hstarts i hi]
    exact congrArg some (Nat.mod_mod _ _)
  have hsame : t.argStart = s.argStart := by
    refine Array.ext_getElem? fun i => ?_
    by_cases hi : i ≤ d.length
    · rw [hargStart i hi, ht.starts i (by omega), hstarts i hi]
    · rw [Array.getElem?_eq_none (by rw [ht.starts_size]; omega),
        Array.getElem?_eq_none (by rw [hs.starts_size]; omega)]
  obtain ⟨more, hmore⟩ := hwords
  have hargs : t.args = s.args ++ more.toArray := by
    rw [ht.args, ← hmore, hs.args, List.append_toArray]
  have hfound {i a : Nat} (h : Index.get s.argStart i = .ok a) : a ≤ s.args.size := by
    rw [Index.get_eq_ok_iff] at h
    have hi := (Array.getElem?_eq_some_iff.mp h).1
    rw [hs.starts_size] at hi
    rw [hargStart i (by omega)] at h
    exact Option.some.inj h ▸ hbefore i
  funext i
  simp only [instr, hsame, ht.ops, hs.ops, hops, ht.resultRows, hs.resultRows, hrows]
  cases hstart : Index.get s.argStart i with
  | error f => rfl
  | ok a =>
    cases hstop : Index.get s.argStart (i + 1) with
    | error f => rfl
    | ok b =>
      have hslice : Index.slice t.args a b = Index.slice s.args a b := by
        rw [hargs, Index.slice_append (hfound hstart) (hfound hstop)]
      simp only [bind, Except.bind, hslice]

/-- A skip of the instructions that `entries` lists if row 1 equals itself, and of none if not. -/
def longSkip (entries : List Nat) (row : Nat) : Instr :=
  ⟨.skip, [Relation.eq.code, 3, 1, 1, Index.toArg entries.length, 0] ++ entries ++ [] ++
    [Index.toArg entries.length], row⟩

/-- A skip that has lost its entries. -/
def emptiedSkip (row : Nat) : Instr :=
  ⟨.skip, [Relation.eq.code, 3, 1, 1, Index.argBound - 1, 0], row⟩

/-- The tape with a skip of many entries and with later instructions. -/
def overfill (t : Tape F) (entries : List Nat) (late : List Instr) : Tape F :=
  t.extend (longSkip entries (t.rows - 1) :: late)

/-- What is read back of such a tape if the skip makes the count of the words go round: the skip
without its entries, and the later instructions with the entries for their arguments. -/
def misread (t : Tape F) (entries : List Nat) (late : List Instr) : Tape F :=
  t.extend (emptiedSkip (t.rows - 1) :: reread entries late)

section Overfill

variable {t : Tape F} {l late : List Instr} {entries : List Nat} {row : Nat}

/-- With one entry less than can be counted the words of the skip are `2 ^ 32` more than those of
the emptied one. -/
theorem toArg_words_longSkip (hlength : entries.length = Index.argBound - 1)
    (hfew : (l.flatMap (·.args)).length + 6 + (late.flatMap (·.args)).length < Index.argBound)
    (i : Nat) :
    Index.toArg (((l ++ longSkip entries row :: late).take i).flatMap (·.args)).length =
      (((l ++ emptiedSkip row :: reread entries late).take i).flatMap (·.args)).length := by
  have htake (l l' : List Instr) : ((l ++ l').take i).flatMap (·.args) =
      (l.take i).flatMap (·.args) ++ (l'.take (i - l.length)).flatMap (·.args) := by
    rw [List.take_append, List.flatMap_append]
  have hbefore := words_take_le l i
  rw [htake, htake, List.length_append, List.length_append]
  cases i - l.length with
  | zero =>
    simp only [List.take_zero, List.flatMap_nil, List.length_nil, Nat.add_zero]
    exact Index.toArg_of_lt (by omega)
  | succ d =>
    have hafter := words_take_le late d
    have hround (n m : Nat) :
        n + (6 + (Index.argBound - 1) + 1 + m) = n + (6 + m) + Index.argBound := by
      have hbound : 0 < Index.argBound := by decide
      omega
    rw [List.take_succ_cons, List.take_succ_cons, List.flatMap_cons, List.flatMap_cons,
      List.length_append, List.length_append, length_args_reread (by omega)]
    simp only [longSkip, emptiedSkip, List.append_nil, List.length_append, List.length_cons,
      List.length_nil, hlength]
    rw [hround, Index.toArg, Nat.add_mod_right, Nat.mod_eq_of_lt (by omega)]

theorem Lists.overfill (h : t.Lists l) (hpos : 0 < t.rows) (hplaced : Placed t.rows late)
    (entries : List Nat) :
    (t.overfill entries late).Lists (l ++ longSkip entries (t.rows - 1) :: late) :=
  h.extend ⟨Nat.sub_add_cancel hpos, hplaced⟩

theorem Lists.misread (h : t.Lists l) (hpos : 0 < t.rows) (hplaced : Placed t.rows late)
    (entries : List Nat) :
    (t.misread entries late).Lists (l ++ emptiedSkip (t.rows - 1) :: reread entries late) :=
  h.extend ⟨Nat.sub_add_cancel hpos, placed_reread hplaced⟩

/-- Sweeps cannot tell the tapes apart. -/
structure Alike (t s : Tape F) : Prop where
  program : t.program = s.program
  ops : t.ops = s.ops
  registry : t.registry = s.registry

/-- A skip with one entry less than can be counted makes the argument lists of the later
instructions begin where its entries do. -/
theorem alike_misread (h : t.Lists l) (hpos : 0 < t.rows) (hplaced : Placed t.rows late)
    (hlength : entries.length = Index.argBound - 1)
    (hfew : (l.flatMap (·.args)).length + 6 + (late.flatMap (·.args)).length < Index.argBound) :
    (t.overfill entries late).Alike (t.misread entries late) := by
  have ht := h.overfill hpos hplaced entries
  have hs := h.misread hpos hplaced entries
  have hops : (l ++ longSkip entries (t.rows - 1) :: late).map (·.op) =
      (l ++ emptiedSkip (t.rows - 1) :: reread entries late).map (·.op) := by
    simp [longSkip, emptiedSkip, op_reread]
  have hinstr : (t.overfill entries late).instr = (t.misread entries late).instr := by
    refine ht.instr_eq_instr hs hops (by simp [longSkip, emptiedSkip, row_reread]) ?_
      fun i _ => toArg_words_longSkip hlength hfew i
    rw [List.flatMap_append, List.flatMap_append, List.flatMap_cons, List.flatMap_cons,
      args_reread (by omega), longSkip, emptiedSkip, hlength, Index.toArg_of_lt (by decide),
      List.append_nil, List.append_assoc, List.append_assoc]
    exact (List.prefix_append_right_inj _).mpr ((List.prefix_append_right_inj _).mpr
      ((List.take_prefix _ _).trans (List.prefix_append _ _)))
  have hsame : (t.overfill entries late).ops = (t.misread entries late).ops := by
    rw [ht.ops, hs.ops, hops]
  have hrows : (t.overfill entries late).rows = (t.misread entries late).rows := by
    rw [Tape.overfill, Tape.misread, rows_extend, rows_extend, rowCount_cons, rowCount_cons,
      rowCount_reread]
    rfl
  obtain ⟨hparams, hindependents, hloads, hregistry⟩ :=
    extend_other t (longSkip entries (t.rows - 1) :: late)
  obtain ⟨hparams', hindependents', hloads', hregistry'⟩ :=
    extend_other t (emptiedSkip (t.rows - 1) :: reread entries late)
  have hregistry : (t.overfill entries late).registry = (t.misread entries late).registry :=
    hregistry.trans hregistry'.symm
  have hcallSite : (t.overfill entries late).callSite = (t.misread entries late).callSite := by
    funext args
    rw [callSite, callSite, hregistry]
  refine ⟨?_, hsame, hregistry⟩
  rw [program, program, hinstr, hcallSite, hsame, hrows,
    show (t.overfill entries late).params = (t.misread entries late).params from
      hparams.trans hparams'.symm,
    show (t.overfill entries late).independents = (t.misread entries late).independents from
      hindependents.trans hindependents'.symm,
    show (t.overfill entries late).loads = (t.misread entries late).loads from
      hloads.trans hloads'.symm]

end Overfill

namespace Alike

variable {t s : Tape F} (h : t.Alike s)

include h

theorem instr : t.instr = s.instr := congrArg Program.instr h.program

theorem rows : t.rows = s.rows := congrArg Program.rowCount h.program

theorem noSkip : t.noSkip = s.noSkip := by rw [Tape.noSkip, Tape.noSkip, h.ops]

theorem isStopped : t.isStopped = s.isStopped := by rw [Tape.isStopped, Tape.isStopped, h.ops]

theorem fits {b : Buffer F} (hb : b.Fits s) : b.Fits t := hb.of_rows h.rows

theorem loadsOk {resolved : Array Nat} (hloads : s.LoadsOk resolved) : t.LoadsOk resolved :=
  fun i ins hins => hloads i ins (h.instr ▸ hins)

theorem maskOk {mask : Array Bool} (hmask : s.MaskOk mask) : t.MaskOk mask := by
  refine ⟨by rw [h.ops]; exact hmask.stop, fun o i hin => ?_⟩
  obtain ⟨hmarker, hopens, hle, hend⟩ := hin
  rw [markersBefore, h.ops] at hopens
  rw [markersBefore, markersBefore, h.ops] at hend
  exact hmask.blocks o i ⟨h.ops ▸ hmarker, hopens, hle, hend⟩

variable [Scalar F] (q : Nat) (b : Buffer F) (mask : Array Bool) (resolved : Array Nat)
variable (options : Options)

theorem sweep : t.sweep q b mask resolved options = s.sweep q b mask resolved options := by
  rw [Tape.sweep, Tape.sweep, replay, replay, h.isStopped, h.rows, h.program]

theorem sweepOrders :
    t.sweepOrders q b mask resolved options = s.sweepOrders q b mask resolved options := by
  simp only [Tape.sweepOrders, replayOrders, replay, h.isStopped, h.rows, h.program]

theorem sweep_noSkip :
    t.sweep q b t.noSkip resolved options = s.sweep q b s.noSkip resolved options := by
  rw [h.sweep, h.noSkip]

theorem sweepOrders_noSkip :
    t.sweepOrders q b t.noSkip resolved options = s.sweepOrders q b s.noSkip resolved options := by
  rw [h.sweepOrders, h.noSkip]

end Alike

/-- Entries for a skip that makes the count of the words go round. -/
def filler (words : List Nat) : List Nat :=
  words ++ List.replicate (Index.argBound - 1 - words.length) 0

variable [Scalar F]

open Recorder (Action)

/-- The tape of a session with such a skip between its earlier steps and its later ones. -/
def overfull (early : List (Action F)) (words : List Nat) (late : List (Action F)) : Tape F :=
  .ofSession (early ++ .skip .eq (.var 1) (.var 1) (filler words) [] :: late)

/-- Whatever the skip lists, the session appends it and `l` to the tape `t`. -/
def Overfills (early late : List (Action F)) (t : Tape F) (l : List Instr) : Prop :=
  ∀ entries : List Nat, (early ++ .skip .eq (.var 1) (.var 1) entries [] :: late).forM
    Action.record Tape.empty = .ok () (t.overfill entries l)

namespace Overfills

variable {early late : List (Action F)} {t : Tape F} {l : List Instr} {words : List Nat}

theorem eq (h : Overfills early late t l) :
    overfull early words late = t.overfill (filler words) l := by
  rw [overfull, ofSession, h]

theorem recorded (h : Overfills early late t l) : (overfull early words late).Recorded :=
  ⟨_, h.eq ▸ h (filler words)⟩

/-- The instructions are recorded as they are given. -/
theorem lists (h : Overfills early late t l) (ht : t.Recorded) (hc : t.Countable)
    {head : List Instr} (hhead : t.instrs = head) (hplaced : Placed t.rows l) (words : List Nat) :
    (overfull early words late).Lists (head ++ longSkip (filler words) (t.rows - 1) :: l) := by
  obtain ⟨items, tail, hspells⟩ := ht.spells
  rw [h.eq, ← hhead]
  exact (ht.lists_instrs hc).overfill hspells.rows_pos hplaced (filler words)

/-- They are read back with the words that the skip lists. -/
theorem alike (h : Overfills early late t l) (ht : t.Recorded) (hplaced : Placed t.rows l)
    (hwords : (l.flatMap (·.args)).length ≤ words.length)
    (hfew : t.args.size + 6 + words.length < Index.argBound) :
    (overfull early words late).Alike (t.misread words l) := by
  obtain ⟨items, tail, hspells⟩ := ht.spells
  have hfew : ((headInstrs t.independents ++ instrsOf items ++ tail).flatMap (·.args)).length + 6 +
      (l.flatMap (·.args)).length < Index.argBound := by
    rw [← List.size_toArray, ← hspells.lists.args]
    omega
  have halike := alike_misread hspells.lists hspells.rows_pos hplaced
    (show (filler words).length = Index.argBound - 1 by
      rw [filler, List.length_append, List.length_replicate]
      omega) hfew
  rwa [misread, filler, reread_append hwords, ← filler, ← h.eq] at halike

end Overfills

/-- The tape of one independent. -/
def oneTape : Tape ℚ := .ofSession [.independents 1]

theorem oneTape_recorded : oneTape.Recorded := ofSession_recorded (by decide)

theorem oneTape_countable : oneTape.Countable := ⟨by decide, by decide⟩

theorem oneTape_instrs : oneTape.instrs = [⟨.start, [0], 0⟩, ⟨.independent, [], 1⟩] := by decide

/-- An elementary function of row 1, and the last instruction. -/
def lateInstrs (f : Elementary) : List Instr :=
  [⟨.elementary f, [1], 1 + (Opcode.elementary f).resultCount⟩,
    ⟨.stop, [], 1 + (Opcode.elementary f).resultCount⟩]

theorem placed_lateInstrs (f : Elementary) : Placed oneTape.rows (lateInstrs f) := by
  cases f <;> exact ⟨rfl, rfl, trivial⟩

/-- A recorded elementary function of row 1 behind a skip that lists `w` first. -/
def stray (f : Elementary) (w : Nat) : Tape ℚ :=
  overfull [.independents 1] [w] [.operation (.elementary f) [1], .finish]

theorem overfills_stray (f : Elementary) :
    Overfills [.independents 1] [.operation (.elementary f) [1], .finish] oneTape
      (lateInstrs f) := by
  intro entries
  cases f <;> rfl

theorem stray_recorded (f : Elementary) (w : Nat) : (stray f w).Recorded :=
  (overfills_stray f).recorded

/-- The tape that sweeps find in its place. -/
def strayRead (f : Elementary) (w : Nat) : Tape ℚ := oneTape.misread [w] (lateInstrs f)

theorem stray_alike (f : Elementary) (w : Nat) : (stray f w).Alike (strayRead f w) :=
  (overfills_stray f).alike oneTape_recorded (placed_lateInstrs f) (Nat.le_refl 1)
    (show oneTape.args.size + 6 + 1 < Index.argBound by decide)

/-- `Countable` cannot be left out: the tape is recorded, its tables hold a function of row 1, and
what is read back is the function of whatever row the skip lists. -/
theorem stray_misread (f : Elementary) (w : Nat) :
    let row := 1 + (Opcode.elementary f).resultCount
    (stray f w).Recorded ∧
      (stray f w).Lists [⟨.start, [0], 0⟩, ⟨.independent, [], 1⟩, longSkip (filler [w]) 1,
        ⟨.elementary f, [1], row⟩, ⟨.stop, [], row⟩] ∧
      (stray f w).instr 3 = .ok ⟨.elementary f, [w], row⟩ := by
  intro row
  have hlists := (overfills_stray f).lists oneTape_recorded oneTape_countable oneTape_instrs
    (placed_lateInstrs f) [w]
  refine ⟨stray_recorded f w, hlists, ?_⟩
  have hread := (oneTape_recorded.lists_instrs oneTape_countable).misread
    (show 0 < oneTape.rows by decide) (placed_lateInstrs f) [w]
  rw [oneTape_instrs] at hread
  have hargs : (strayRead f w).args.size < Index.argBound := by
    rw [strayRead, hread.args]
    exact show 8 < Index.argBound by decide
  rw [(stray_alike f w).instr]
  exact hread.instr_eq hargs (show 3 < 5 by decide)

/-- A buffer for three rows, of orders below 2 and one direction, with a seed for row 1 and with
something left in row 2 at order 1. -/
def strayBuffer (seed leftover : ℚ) : Buffer ℚ :=
  ⟨⟨⟨2, 1⟩, #[0, 0, 1, seed, 2, leftover]⟩, 3⟩

section Leftover

variable (seed leftover : ℚ)

/-- An exponential that is read back as that of its own row takes twice what was left there at order
1, whatever the seed is. -/
theorem strayRead_sweep :
    let t := strayRead .exp 2
    let run := t.sweep 1 (strayBuffer seed leftover) t.noSkip #[] {}
    run.stop = none ∧ run.cells = #[0, 0, 1, seed, 2, 2 * leftover] := by
  intro t run
  -- The operations of `ℚ` are sealed, so the run is unfolded down to them and then compared.
  have hcells : run.cells = #[0, 0, 1, seed, 2, (0 + 1 * leftover * 2) * 1] := by
    with_unfolding_all rfl
  rw [zero_add, one_mul, mul_one, mul_comm] at hcells
  exact ⟨by with_unfolding_all rfl, hcells⟩

theorem strayRead_sweepOrders :
    let t := strayRead .exp 2
    let run := t.sweepOrders 1 (strayBuffer seed leftover) t.noSkip #[] {}
    run.stop = none ∧ run.cells = #[0, 0, 1, seed, 2, 2 * leftover] := by
  intro t run
  have hcells : run.cells = #[0, 0, 1, seed, 2, (0 + 1 * leftover * 2) * 1] := by
    with_unfolding_all rfl
  rw [zero_add, one_mul, mul_one, mul_comm] at hcells
  exact ⟨by with_unfolding_all rfl, hcells⟩

end Leftover

/-- A tape with one exponential. -/
def expTape : Tape ℚ := .ofSession [.independents 1, .operation (.elementary .exp) [1]]

theorem expTape_recorded : expTape.Recorded := ofSession_recorded (by decide)

/-- Two recorded exponentials of row 1, the second one behind a skip that lists the row of the
first. -/
def strayPair : Tape ℚ :=
  overfull [.independents 1, .operation (.elementary .exp) [1]] [2]
    [.operation (.elementary .exp) [1], .finish]

/-- The second exponential, and the last instruction. -/
def pairInstrs : List Instr := [⟨.elementary .exp, [1], 3⟩, ⟨.stop, [], 3⟩]

theorem placed_pairInstrs : Placed expTape.rows pairInstrs := ⟨rfl, rfl, trivial⟩

theorem overfills_strayPair :
    Overfills [.independents 1, .operation (.elementary .exp) [1]]
      [.operation (.elementary .exp) [1], .finish] expTape pairInstrs :=
  fun _ => rfl

theorem strayPair_alike : strayPair.Alike (expTape.misread [2] pairInstrs) :=
  overfills_strayPair.alike expTape_recorded placed_pairInstrs (Nat.le_refl 1)
    (show expTape.args.size + 6 + 1 < Index.argBound by decide)

theorem strayPair_lists : strayPair.Lists [⟨.start, [0], 0⟩, ⟨.independent, [], 1⟩,
    ⟨.elementary .exp, [1], 2⟩, longSkip (filler [2]) 2, ⟨.elementary .exp, [1], 3⟩,
    ⟨.stop, [], 3⟩] := by
  have hinstrs : expTape.instrs =
      [⟨.start, [0], 0⟩, ⟨.independent, [], 1⟩, ⟨.elementary .exp, [1], 2⟩] := by
    decide
  exact overfills_strayPair.lists expTape_recorded ⟨by decide, by decide⟩ hinstrs
    placed_pairInstrs [2]

/-- A buffer for four rows, with something left in the last two. -/
def strayPairBuffer : Buffer ℚ := ⟨⟨⟨2, 1⟩, #[0, 0, 1, 1, 2, 5, 3, 7]⟩, 4⟩

end Tape

end JetTape
