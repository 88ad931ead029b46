import Mathlib.Logic.Function.Basic

/-!
# Programs as trees of labelled atomic steps

A program over a shared state performs one atomic action after the other; each action returns a
value or an error, on which the rest of the program depends. Whoever runs it decides what happens
between two steps: nothing, a failure, the end of the process, or steps of other programs.
-/

namespace Program

/-- A program over states `σ` with step labels `ℓ` and errors `ε`. -/
inductive Prog (σ ℓ ε α : Type) : Type 1
  | pure (a : α)
  | throw (e : ε)
  | step {β : Type} (label : ℓ) (act : σ → Except ε β × σ) (next : Except ε β → Prog σ ℓ ε α)

variable {σ ℓ ε α β : Type}

namespace Prog

def bind : Prog σ ℓ ε α → (α → Prog σ ℓ ε β) → Prog σ ℓ ε β
  | pure a, k => k a
  | throw e, _ => throw e
  | step label act next, k => step label act fun r => (next r).bind k

/-- Run `handler` on the error, if there is one. -/
def tryCatch : Prog σ ℓ ε α → (ε → Prog σ ℓ ε α) → Prog σ ℓ ε α
  | pure a, _ => pure a
  | throw e, handler => handler e
  | step label act next, handler => step label act fun r => (next r).tryCatch handler

instance : Monad (Prog σ ℓ ε) where
  pure := Prog.pure
  bind := Prog.bind

instance : MonadExceptOf ε (Prog σ ℓ ε) where
  throw := Prog.throw
  tryCatch := Prog.tryCatch

def ofExcept : Except ε α → Prog σ ℓ ε α
  | .ok a => pure a
  | .error e => throw e

/-- One atomic step whose failure is the failure of the program. -/
def lift (label : ℓ) (act : σ → Except ε α × σ) : Prog σ ℓ ε α := step label act ofExcept

/-- Run to the end without interruption. -/
def run : Prog σ ℓ ε α → σ → Except ε α × σ
  | pure a, s => (.ok a, s)
  | throw e, s => (.error e, s)
  | step _ act next, s => (next (act s).1).run (act s).2

/-- All of `p` as one atomic step, which leaves the state alone if `p` fails. -/
def transaction (label : ℓ) (p : Prog σ ℓ ε α) : Prog σ ℓ ε α :=
  lift label fun s =>
    match p.run s with
    | (.ok a, s') => (.ok a, s')
    | (.error e, _) => (.error e, s)

/-- The same program with every step labelled `label`. -/
def labelled (label : ℓ) : Prog σ ℓ ε α → Prog σ ℓ ε α
  | pure a => pure a
  | throw e => throw e
  | step _ act next => step label act fun r => (next r).labelled label

@[simp] theorem bind_pure_left (a : α) (k : α → Prog σ ℓ ε β) : (Pure.pure a >>= k) = k a := rfl

theorem bind_bind {γ : Type} (p : Prog σ ℓ ε α) (k : α → Prog σ ℓ ε β) (k' : β → Prog σ ℓ ε γ) :
    (p >>= k) >>= k' = p >>= fun a => k a >>= k' := by
  induction p with
  | pure a => rfl
  | throw e => rfl
  | step label act next ih => exact congrArg (step label act) (funext ih)

@[simp] theorem run_pure (a : α) (s : σ) :
    (Pure.pure a : Prog σ ℓ ε α).run s = (.ok a, s) := rfl

@[simp] theorem run_throw (e : ε) (s : σ) :
    (MonadExcept.throw e : Prog σ ℓ ε α).run s = (.error e, s) := rfl

@[simp] theorem run_lift (label : ℓ) (act : σ → Except ε α × σ) (s : σ) :
    (lift label act).run s = act s := by
  rw [lift, run]
  cases h : act s with
  | mk r s' => cases r <;> rfl

theorem run_bind (p : Prog σ ℓ ε α) (k : α → Prog σ ℓ ε β) (s : σ) :
    (p >>= k).run s =
      match p.run s with
      | (.ok a, s') => (k a).run s'
      | (.error e, s') => (.error e, s') := by
  induction p generalizing s with
  | pure a => rfl
  | throw e => rfl
  | step label act next ih => exact ih (act s).1 (act s).2

theorem run_bind_ok {p : Prog σ ℓ ε α} {k : α → Prog σ ℓ ε β} {s s' : σ} {b : β}
    (h : (p >>= k).run s = (.ok b, s')) :
    ∃ a s₁, p.run s = (.ok a, s₁) ∧ (k a).run s₁ = (.ok b, s') := by
  rw [run_bind] at h
  rcases hrun : p.run s with ⟨e | a, s₁⟩
  · rw [hrun] at h
    cases h
  · rw [hrun] at h
    exact ⟨a, s₁, rfl, h⟩

theorem run_ofExcept_ok {r : Except ε α} {s s' : σ} {a : α}
    (h : (ofExcept r : Prog σ ℓ ε α).run s = (.ok a, s')) : r = .ok a ∧ s' = s := by
  cases r with
  | error e => cases h
  | ok b =>
    cases h
    exact ⟨rfl, rfl⟩

theorem run_forM_cons {γ : Type} (x : γ) (xs : List γ) (body : γ → Prog σ ℓ ε Unit) (s : σ) :
    ((x :: xs).forM body).run s =
      match (body x).run s with
      | (.ok _, s') => (xs.forM body).run s'
      | (.error e, s') => (.error e, s') := by
  change (body x >>= fun _ => xs.forM body).run s = _
  rw [run_bind]
  rcases (body x).run s with ⟨r | r, s'⟩ <;> rfl

@[simp] theorem run_labelled (label : ℓ) (p : Prog σ ℓ ε α) (s : σ) :
    (p.labelled label).run s = p.run s := by
  induction p generalizing s with
  | pure a => rfl
  | throw e => rfl
  | step l act next ih => exact ih (act s).1 (act s).2

theorem run_tryCatch (p : Prog σ ℓ ε α) (handler : ε → Prog σ ℓ ε α) (s : σ) :
    (tryCatchThe ε p handler).run s =
      match p.run s with
      | (.ok a, s') => (.ok a, s')
      | (.error e, s') => (handler e).run s' := by
  induction p generalizing s with
  | pure a => rfl
  | throw e => rfl
  | step label act next ih => exact ih (act s).1 (act s).2

end Prog

end Program
