import ContactForm.Review
import ContactForm.Violation

namespace ContactForm

/-- The first of the violations found, where there is one. -/
def verdict : List Violation → Except Violation Unit
  | [] => .ok ()
  | violation :: _ => .error violation

theorem verdict_append (xs ys : List Violation) :
    verdict (xs ++ ys) = (verdict xs).bind fun _ => verdict ys := by
  cases xs <;> rfl

namespace Review

variable {ε α β : Type}

@[simp] theorem lift_ok_bind (a : α) (next : α → Review ε β) :
    (liftM (Except.ok a : Except ε α) : Review ε α) >>= next = next a := by
  change (⟨[] ++ (next a).warnings, (next a).outcome⟩ : Review ε β) = next a
  rw [List.nil_append]

@[simp] theorem lift_error_bind (e : ε) (next : α → Review ε β) :
    (liftM (Except.error e : Except ε α) : Review ε α) >>= next = fail e := rfl

@[simp] theorem pure_warnings (a : α) : (pure a : Review ε α).warnings = [] := rfl

@[simp] theorem pure_outcome (a : α) : (pure a : Review ε α).outcome = .ok a := rfl

@[simp] theorem warn_bind_warnings (warnings : List Warning) (next : Unit → Review ε β) :
    (warn warnings >>= next).warnings = warnings ++ (next ()).warnings := rfl

@[simp] theorem warn_bind_outcome (warnings : List Warning) (next : Unit → Review ε β) :
    (warn warnings >>= next).outcome = (next ()).outcome := rfl

theorem bind_of_ok {r : Review ε α} {a : α} (h : r.outcome = .ok a) (next : α → Review ε β) :
    r >>= next = ⟨r.warnings ++ (next a).warnings, (next a).outcome⟩ := by
  change Review.bind r next = _
  rw [Review.bind, h]

theorem bind_of_error {r : Review ε α} {e : ε} (h : r.outcome = .error e) (next : α → Review ε β) :
    r >>= next = ⟨r.warnings, .error e⟩ := by
  change Review.bind r next = _
  rw [Review.bind, h]

theorem bind_bind {γ : Type} (r : Review ε α) (next : α → Review ε β) (last : β → Review ε γ) :
    r >>= next >>= last = r >>= fun a => next a >>= last := by
  cases h : r.outcome with
  | error e => rw [bind_of_error h, bind_of_error h, bind_of_error rfl]
  | ok a =>
    rw [bind_of_ok h, bind_of_ok h]
    cases hn : (next a).outcome with
    | error e => rw [bind_of_error rfl, bind_of_error hn]
    | ok b => rw [bind_of_ok rfl, bind_of_ok hn, List.append_assoc]

/-- Checks the elements of a list from index `i` on, one after the other. -/
def inOrder (check : Nat → α → Review ε β) : Nat → List α → Review ε (List β)
  | _, [] => pure []
  | i, a :: rest => do
    let b ← check i a
    let bs ← inOrder check (i + 1) rest
    return b :: bs

theorem eachFrom_eq_inOrder (check : Nat → α → Review ε β) (i : Nat) (warnings : List Warning)
    (done : List β) (list : List α) :
    eachFrom check i warnings done list =
      ⟨warnings.reverse ++ (inOrder check i list).warnings,
        (inOrder check i list).outcome.map (done.reverse ++ ·)⟩ := by
  induction list generalizing i warnings done with
  | nil => simp [eachFrom, inOrder, Except.map]
  | cons a rest ih =>
    rw [eachFrom, inOrder]
    cases h : (check i a).outcome with
    | error e => simp [bind_of_error h, Except.map]
    | ok b =>
      rw [bind_of_ok h]
      cases hr : (inOrder check (i + 1) rest).outcome with
      | error e => simp [ih, hr, bind_of_error hr, Except.map]
      | ok bs => simp [ih, hr, bind_of_ok hr, Except.map]

theorem each_eq_inOrder (check : Nat → α → Review ε β) (list : List α) :
    each check list = inOrder check 0 list := by
  rw [each, eachFrom_eq_inOrder]
  cases h : (inOrder check 0 list).outcome <;> simp [Except.map, ← h]

/-- Where each element reports the first of its violations, so does the list. -/
theorem each_outcome {check : Nat → α → Review Violation β}
    {violations : Nat → α → List Violation} {result : α → β}
    (h : ∀ i a, (check i a).outcome = (verdict (violations i a)).map fun _ => result a)
    (list : List α) :
    (each check list).outcome =
      (verdict (list.zipIdx.flatMap fun entry => violations entry.2 entry.1)).map
        fun _ => list.map result := by
  suffices hall : ∀ i, (inOrder check i list).outcome =
      (verdict ((list.zipIdx i).flatMap fun entry => violations entry.2 entry.1)).map
        fun _ => list.map result by
    rw [each_eq_inOrder]
    exact hall 0
  induction list with
  | nil =>
    intro _
    rfl
  | cons a rest ih =>
    intro i
    rw [inOrder, List.zipIdx_cons, List.flatMap_cons, verdict_append]
    have ha := h i a
    have hrest := ih (i + 1)
    cases hv : verdict (violations i a) with
    | error v =>
      rw [hv] at ha
      rw [bind_of_error ha]
      rfl
    | ok u =>
      rw [hv] at ha
      rw [bind_of_ok ha]
      cases hvs : verdict ((rest.zipIdx (i + 1)).flatMap fun entry => violations entry.2 entry.1) with
      | error v =>
        rw [hvs] at hrest
        rw [bind_of_error hrest]
        rfl
      | ok u =>
        rw [hvs] at hrest
        rw [bind_of_ok hrest]
        rfl

end Review

end ContactForm
