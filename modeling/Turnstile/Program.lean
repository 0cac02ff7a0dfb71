/-!
# Programs

A program is a tree of calls to an `Interface`: each node makes one call and goes on with its
answer. A program may owe something: `owe r` adds an obligation, and `settle` runs the latest one
before it goes on. Whoever runs a program keeps the list of what is still owed, so that a program
that is dropped halfway leaves behind exactly the obligations that it has not begun to settle.
-/

namespace Turnstile

/-- Calls, and the type of the answer to each. -/
structure Interface where
  Call : Type
  Answer : Call → Type

inductive Program (I : Interface) (ρ α : Type) where
  | done (a : α)
  | call (c : I.Call) (k : I.Answer c → Program I ρ α)
  | owe (r : ρ) (p : Program I ρ α)
  | settle (p : Program I ρ α)

namespace Program

variable {I J : Interface} {ρ σ α β : Type}

def bind : Program I ρ α → (α → Program I ρ β) → Program I ρ β
  | done a, f => f a
  | call c k, f => call c fun x => (k x).bind f
  | owe r p, f => owe r (p.bind f)
  | settle p, f => settle (p.bind f)

instance : Monad (Program I ρ) where
  pure := done
  bind := bind

/-- A single call. -/
def ask (c : I.Call) : Program I ρ (I.Answer c) := call c done

/-- Owes `r` while `p` runs, and settles it afterwards. -/
def owing (r : ρ) (p : Program I ρ α) : Program I ρ α := owe r (p.bind fun a => settle (done a))

/-- The same program at another interface, where `f` carries out each call. -/
def lower (f : (c : I.Call) → Program J σ (I.Answer c)) (g : ρ → σ) :
    Program I ρ α → Program J σ α
  | done a => done a
  | call c k => (f c).bind fun x => (k x).lower f g
  | owe r p => owe (g r) (p.lower f g)
  | settle p => settle (p.lower f g)

@[simp] theorem bind_done (p : Program I ρ α) : p.bind done = p := by
  induction p with
  | done a => rfl
  | call c k ih => exact congrArg (call c) (funext ih)
  | owe r p ih => exact congrArg (owe r) ih
  | settle p ih => exact congrArg settle ih

theorem bind_assoc {γ : Type} (p : Program I ρ α) (f : α → Program I ρ β) (g : β → Program I ρ γ) :
    (p.bind f).bind g = p.bind fun a => (f a).bind g := by
  induction p with
  | done a => rfl
  | call c k ih => exact congrArg (call c) (funext ih)
  | owe r p ih => exact congrArg (owe r) ih
  | settle p ih => exact congrArg settle ih

end Program

end Turnstile
