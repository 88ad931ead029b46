import ForgeRelay.Lib.Faults

/-!
# Programs with a record of their steps

A record that a program's steps do not see. Every step that succeeds adds to it what its label
says; a step that fails, or does not take place, adds nothing. The program runs as it does without
the record.
-/

namespace Program

variable {σ γ ℓ ℓ' ε α β : Type}

namespace Prog

/-- The record behind a step with this result. -/
def recordOf (mark : ℓ → γ → γ) (label : ℓ) : Except ε α → γ → γ
  | .ok _, g => mark label g
  | .error _, g => g

/-- The same program with a record of its steps. -/
def recorded (mark : ℓ → γ → γ) : Prog σ ℓ ε α → Prog (σ × γ) ℓ ε α
  | pure a => pure a
  | throw e => throw e
  | step label act next =>
    step label (fun t => ((act t.1).1, (act t.1).2, recordOf mark label (act t.1).1 t.2))
      fun r => (next r).recorded mark

variable {mark : ℓ → γ → γ}

@[simp] theorem recorded_pure (a : α) :
    (Pure.pure a : Prog σ ℓ ε α).recorded mark = Pure.pure a := rfl

@[simp] theorem recorded_bind (p : Prog σ ℓ ε α) (k : α → Prog σ ℓ ε β) :
    (p >>= k).recorded mark = p.recorded mark >>= fun a => (k a).recorded mark := by
  induction p with
  | pure a => rfl
  | throw e => rfl
  | step l act next ih => exact congrArg (step l _) (funext ih)

@[simp] theorem recorded_tryCatch (p : Prog σ ℓ ε α) (handler : ε → Prog σ ℓ ε α) :
    (tryCatchThe ε p handler).recorded mark =
      tryCatchThe ε (p.recorded mark) fun e => (handler e).recorded mark := by
  induction p with
  | pure a => rfl
  | throw e => rfl
  | step l act next ih => exact congrArg (step l _) (funext ih)

theorem recorded_ite (c : Prop) [Decidable c] (p q : Prog σ ℓ ε α) :
    (if c then p else q).recorded mark = if c then p.recorded mark else q.recorded mark := by
  split <;> rfl

theorem Exec.of_tag (label : ℓ') {p : Prog σ ℓ ε α} {s s' : σ} {r : Option (Except ε α)}
    (h : Exec (fun _ _ => True) (p.tag label) s r s') : Exec (fun _ _ => True) p s r s' := by
  induction p generalizing s with
  | pure a =>
    cases h
    exact .pure a _
  | throw e =>
    cases h
    exact .throw e _
  | step l act next ih =>
    cases h with
    | step rest => exact .step (ih _ rest)
    | fail e _ rest => exact .fail e trivial (ih _ rest)
    | stop _ => exact .stop trivial

theorem Exec.tag {p : Prog σ ℓ ε α} {s s' : σ} {r : Option (Except ε α)}
    (h : Exec (fun _ _ => True) p s r s') (label : ℓ') :
    Exec (fun _ _ => True) (p.tag label) s r s' := by
  induction h with
  | pure a s => exact .pure a s
  | throw e s => exact .throw e s
  | step rest ih => exact .step ih
  | fail e _ rest ih => exact .fail e trivial ih
  | stop _ => exact .stop trivial

theorem Exec.of_recorded {p : Prog σ ℓ ε α} {t t' : σ × γ} {r : Option (Except ε α)}
    (h : Exec (fun _ _ => True) (p.recorded mark) t r t') :
    Exec (fun _ _ => True) p t.1 r t'.1 := by
  induction p generalizing t with
  | pure a =>
    cases h
    exact .pure a _
  | throw e =>
    cases h
    exact .throw e _
  | step l act next ih =>
    cases h with
    | step rest => exact .step (ih _ rest)
    | fail e _ rest => exact .fail e trivial (ih _ rest)
    | stop _ => exact .stop trivial

/-- Every run has a record. -/
theorem Exec.exists_record {p : Prog σ ℓ ε α} {s s' : σ} {r : Option (Except ε α)}
    (h : Exec (fun _ _ => True) p s r s') (mark : ℓ → γ → γ) (g : γ) :
    ∃ g', Exec (fun _ _ => True) (p.recorded mark) (s, g) r (s', g') := by
  induction h generalizing g with
  | pure a s => exact ⟨g, .pure a _⟩
  | throw e s => exact ⟨g, .throw e _⟩
  | @step δ label act next s s' r rest ih =>
    obtain ⟨g', hrest⟩ := ih (recordOf mark label (act s).1 g)
    exact ⟨g', .step hrest⟩
  | fail e _ rest ih =>
    obtain ⟨g', hrest⟩ := ih g
    exact ⟨g', .fail e trivial hrest⟩
  | stop _ => exact ⟨g, .stop trivial⟩

section

variable {interrupts : ℓ → σ × γ → Prop} {crash : σ × γ → Prop} {err : σ × γ → Prop}
  {R : α → σ × γ → Prop} {s : σ} {g : γ}

theorem wp_marked {label : ℓ} {l : ℓ'} {act : σ → Except ε α × σ} {err' : σ → Prop}
    {R' : α → σ → Prop}
    (h : wp (fun _ _ => True) (fun s => crash (s, g)) (lift l act) (Outcome err' R') s)
    (hok : ∀ a s', R' a s' → R a (s', mark label g)) (herr : ∀ s', err' s' → err (s', g)) :
    wp interrupts crash (((lift l act).tag label).recorded mark) (Outcome err R) (s, g) := by
  obtain ⟨hint, hact⟩ := wp_lift.mp h
  obtain ⟨hcrash, hfail⟩ := hint trivial
  refine ⟨fun _ => ⟨hcrash, fun e => herr s (hfail e)⟩, ?_⟩
  dsimp only
  cases hr : (act s).1 with
  | error e =>
    rw [hr] at hact
    exact herr _ hact
  | ok a =>
    rw [hr] at hact
    exact hok a _ hact

theorem wp_unmarked {label : ℓ} (hmark : ∀ g, mark label g = g) {p : Prog σ ℓ' ε α}
    (h : wp (fun _ _ => True) (fun s => crash (s, g)) p
      (Outcome (fun s => err (s, g)) fun a s => R a (s, g)) s) :
    wp interrupts crash ((p.tag label).recorded mark) (Outcome err R) (s, g) := by
  induction p generalizing s with
  | pure a => exact h
  | throw e => exact h
  | step l act next ih =>
    obtain ⟨hcrash, hfail⟩ := h.1 trivial
    refine ⟨fun _ => ⟨hcrash, fun e => ih _ (hfail e)⟩, ?_⟩
    have hrecord : recordOf mark label (act s).1 g = g := by
      cases (act s).1 with
      | error e => rfl
      | ok a => exact hmark g
    dsimp only
    rw [hrecord]
    exact ih _ h.2

end

end Prog

end Program
