import ForgeRelay.Lib.CrashLogic

/-!
# Runs among rivals

Between the steps of a program others move the state, as far as a relation allows them; a step that
fails may have done a part of its work; and the process may stop in front of every step.
-/

namespace Program

variable {σ ℓ ε α β : Type}

namespace Prog

/-- `Among rivals fails p s r s'`: a run of `p` from `s` with moves of the rivals in front of its
steps ends in `s'`, completed with result `r` or, if `r` is `none`, stopped. -/
inductive Among (rivals : σ → σ → Prop) (fails : ℓ → σ → σ → Prop) :
    Prog σ ℓ ε α → σ → Option (Except ε α) → σ → Prop
  | pure (a : α) (s : σ) : Among rivals fails (.pure a) s (some (.ok a)) s
  | throw (e : ε) (s : σ) : Among rivals fails (.throw e) s (some (.error e)) s
  | step {γ : Type} {label : ℓ} {act : σ → Except ε γ × σ} {next : Except ε γ → Prog σ ℓ ε α}
      {s s₁ s' : σ} {r : Option (Except ε α)} (hrivals : rivals s s₁)
      (rest : Among rivals fails (next (act s₁).1) (act s₁).2 r s') :
      Among rivals fails (.step label act next) s r s'
  | fail {γ : Type} {label : ℓ} {act : σ → Except ε γ × σ} {next : Except ε γ → Prog σ ℓ ε α}
      {s s₁ s₂ s' : σ} {r : Option (Except ε α)} (e : ε) (hrivals : rivals s s₁)
      (hfails : fails label s₁ s₂) (rest : Among rivals fails (next (.error e)) s₂ r s') :
      Among rivals fails (.step label act next) s r s'
  | stop {γ : Type} {label : ℓ} {act : σ → Except ε γ × σ} {next : Except ε γ → Prog σ ℓ ε α}
      {s s₁ : σ} (hrivals : rivals s s₁) : Among rivals fails (.step label act next) s none s₁

theorem among_run {rivals : σ → σ → Prop} (hrefl : ∀ s, rivals s s) (fails : ℓ → σ → σ → Prop)
    (p : Prog σ ℓ ε α) (s : σ) : Among rivals fails p s (some (p.run s).1) (p.run s).2 := by
  induction p generalizing s with
  | pure a => exact .pure a s
  | throw e => exact .throw e s
  | step label act next ih => exact .step (hrefl s) (ih (act s).1 (act s).2)

/-- Completed runs end in `Q`, stopped ones in `crash`, whatever the rivals do. -/
def wpAmong (rivals : σ → σ → Prop) (fails : ℓ → σ → σ → Prop) (crash : σ → Prop) :
    Prog σ ℓ ε α → (Except ε α → σ → Prop) → σ → Prop
  | .pure a, Q, s => Q (.ok a) s
  | .throw e, Q, s => Q (.error e) s
  | .step label act next, Q, s => ∀ s₁, rivals s s₁ → crash s₁ ∧
      (∀ e s₂, fails label s₁ s₂ → wpAmong rivals fails crash (next (.error e)) Q s₂) ∧
      wpAmong rivals fails crash (next (act s₁).1) Q (act s₁).2

section Rules

variable {rivals : σ → σ → Prop} {fails : ℓ → σ → σ → Prop} {crash : σ → Prop}
  {Q Q' : Except ε α → σ → Prop} {err : σ → Prop} {R : α → σ → Prop} {s s' : σ}

theorem wpAmong_sound {p : Prog σ ℓ ε α} {r : Option (Except ε α)}
    (hwp : wpAmong rivals fails crash p Q s) (hamong : Among rivals fails p s r s') :
    Ends crash Q r s' := by
  induction hamong with
  | pure a s => exact hwp
  | throw e s => exact hwp
  | step hrivals rest ih => exact ih (hwp _ hrivals).2.2
  | fail e hrivals hfails rest ih => exact ih ((hwp _ hrivals).2.1 e _ hfails)
  | stop hrivals => exact (hwp _ hrivals).1

theorem wpAmong_mono {p : Prog σ ℓ ε α} (hwp : wpAmong rivals fails crash p Q s)
    (himp : ∀ r s, Q r s → Q' r s) : wpAmong rivals fails crash p Q' s := by
  induction p generalizing s with
  | pure a => exact himp _ _ hwp
  | throw e => exact himp _ _ hwp
  | step label act next ih =>
    intro s₁ hrivals
    obtain ⟨hcrash, hfails, hnext⟩ := hwp s₁ hrivals
    exact ⟨hcrash, fun e s₂ h => ih _ (hfails e s₂ h), ih _ hnext⟩

/-- The rule of sequencing. -/
theorem wpAmong_seq {p : Prog σ ℓ ε α} {k : α → Prog σ ℓ ε β} {R' : β → σ → Prop}
    (hp : wpAmong rivals fails crash p (Outcome err R) s)
    (hk : ∀ a s, R a s → wpAmong rivals fails crash (k a) (Outcome err R') s) :
    wpAmong rivals fails crash (p >>= k) (Outcome err R') s := by
  induction p generalizing s with
  | pure a => exact hk a s hp
  | throw e => exact hp
  | step label act next ih =>
    intro s₁ hrivals
    obtain ⟨hcrash, hfails, hnext⟩ := hp s₁ hrivals
    exact ⟨hcrash, fun e s₂ h => ih _ (hfails e s₂ h), ih _ hnext⟩

theorem wpAmong_sure {p : Prog σ ℓ ε α}
    (hp : wpAmong rivals fails crash p (Outcome (fun _ => False) R) s) :
    wpAmong rivals fails crash p (Outcome err R) s := by
  refine wpAmong_mono hp fun r s' hr => ?_
  cases r with
  | ok a => exact hr
  | error e => exact hr.elim

/-- The rule of exception handling. -/
theorem wpAmong_catch {p : Prog σ ℓ ε α} {handler : ε → Prog σ ℓ ε α}
    (hp : wpAmong rivals fails crash p (Outcome err fun a => Q (.ok a)) s)
    (hhandler : ∀ e s, err s → wpAmong rivals fails crash (handler e) Q s) :
    wpAmong rivals fails crash (tryCatchThe ε p handler) Q s := by
  induction p generalizing s with
  | pure a => exact hp
  | throw e => exact hhandler e s hp
  | step label act next ih =>
    intro s₁ hrivals
    obtain ⟨hcrash, hfails, hnext⟩ := hp s₁ hrivals
    exact ⟨hcrash, fun e s₂ h => ih _ (hfails e s₂ h), ih _ hnext⟩

theorem wpAmong_lift {P : σ → Prop} {label : ℓ} {act : σ → Except ε α × σ}
    (hkept : ∀ s s₁, P s → rivals s s₁ → P s₁) (hs : P s) (hcrash : ∀ s, P s → crash s)
    (hfails : ∀ s s₂ e, P s → fails label s s₂ → Q (.error e) s₂)
    (hact : ∀ s, P s → Q (act s).1 (act s).2) :
    wpAmong rivals fails crash (lift label act) Q s := by
  intro s₁ hrivals
  have hs₁ := hkept s s₁ hs hrivals
  refine ⟨hcrash s₁ hs₁, fun e s₂ h => hfails s₁ s₂ e hs₁ h, ?_⟩
  have hok := hact s₁ hs₁
  rcases hr : (act s₁).1 with e | a <;> rw [hr] at hok <;> exact hok

end Rules

end Prog

end Program
