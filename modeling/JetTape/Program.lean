import JetTape.Operator

/-!
Programs: what a sweep needs to know of a recording. Any answers to these queries make a program,
also answers that no recording gives, and a query may end in a fault.
-/
namespace JetTape

/-- An instruction with its primary result row. Without a result it names the latest row. -/
structure Instr where
  op : Opcode
  args : List Nat
  row : Nat
  deriving DecidableEq, Repr

structure Program (F : Type) where
  instrCount : Nat
  rowCount : Nat
  independentCount : Nat
  loadCount : Nat
  params : Array F
  instr : Nat → Except Fault Instr
  /-- Reads the arguments of a call marker. -/
  callSite : List Nat → Except Fault (CallSite F)

/-- The program of listed instructions, with its counts as given. -/
def Program.ofInstrs {F : Type} (instrs : Array Instr) (rows independents loads : Nat)
    (params : Array F) (registry : Array (Operator F)) : Program F where
  instrCount := instrs.size
  rowCount := rows
  independentCount := independents
  loadCount := loads
  params := params
  instr i := Index.get instrs i
  callSite := CallSite.ofArgs registry

end JetTape
