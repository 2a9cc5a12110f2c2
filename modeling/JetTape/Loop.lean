/-!
Loops over the indices `i, i + 1, …, i + n - 1` in a monad. The indices are never listed, so a
loop that ends early costs no more than the indices it has seen.
-/
namespace JetTape.Loop

variable {m : Type → Type} [Monad m]

/-- Runs `body` at `n` indices from `i` on. -/
def each (n i : Nat) (body : Nat → m Unit) : m Unit :=
  match n with
  | 0 => pure ()
  | n + 1 => do
    body i
    each n (i + 1) body

/-- Carries a value through `n` indices from `i` on. -/
def fold {α : Type} (n i : Nat) (step : α → Nat → m α) (a : α) : m α :=
  match n with
  | 0 => pure a
  | n + 1 => do
    let a ← step a i
    fold n (i + 1) step a

/-- The values of `f` at `n` indices from `i` on. -/
def collect {α : Type} (n i : Nat) (f : Nat → m α) : m (Array α) :=
  fold n i (fun acc i => return acc.push (← f i)) #[]

end JetTape.Loop
