import ContactForm.Warning

namespace ContactForm

/-- The outcome of a check with the warnings recorded on the way; a failure keeps those recorded before it. -/
structure Review (ε α : Type) where
  warnings : List Warning
  outcome : Except ε α

namespace Review

variable {ε ε' α β : Type}

protected def pure (a : α) : Review ε α :=
  ⟨[], .ok a⟩

protected def bind (r : Review ε α) (next : α → Review ε β) : Review ε β :=
  match r.outcome with
  | .error e => ⟨r.warnings, .error e⟩
  | .ok a =>
    let later := next a
    ⟨r.warnings ++ later.warnings, later.outcome⟩

instance : Monad (Review ε) where
  pure := Review.pure
  bind := Review.bind

instance : MonadLift (Except ε) (Review ε) where
  monadLift outcome := ⟨[], outcome⟩

def fail (e : ε) : Review ε α :=
  ⟨[], .error e⟩

def warn (warnings : List Warning) : Review ε Unit :=
  ⟨warnings, .ok ()⟩

def mapError (f : ε → ε') (r : Review ε α) : Review ε' α :=
  ⟨r.warnings, r.outcome.mapError f⟩

/-- Checks the elements of a list in order, each with its index, up to the first that fails; `warnings` and `done`
    hold what came before, the last first. -/
def eachFrom (check : Nat → α → Review ε β) (i : Nat) (warnings : List Warning) (done : List β) :
    List α → Review ε (List β)
  | [] => ⟨warnings.reverse, .ok done.reverse⟩
  | a :: rest =>
    let r := check i a
    let warnings := r.warnings.reverse ++ warnings
    match r.outcome with
    | .error e => ⟨warnings.reverse, .error e⟩
    | .ok b => eachFrom check (i + 1) warnings (b :: done) rest

def each (check : Nat → α → Review ε β) (list : List α) : Review ε (List β) :=
  eachFrom check 0 [] [] list

end Review

end ContactForm
