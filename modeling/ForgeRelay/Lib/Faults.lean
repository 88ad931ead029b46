import ForgeRelay.Lib.CrashLogic

/-!
# Runs in which steps fail

A completed run together with the labels of the steps that have failed in it, by themselves or
because the world outside let them fail. To tell apart more steps than the labels of a program do,
its parts are tagged with labels of another type.
-/

namespace Program

variable {σ ℓ ℓ' ε α β : Type}

namespace Prog

/-- The same program with every step labelled `label`, a label of another type. -/
def tag (label : ℓ') : Prog σ ℓ ε α → Prog σ ℓ' ε α
  | pure a => pure a
  | throw e => throw e
  | step _ act next => step label act fun r => (next r).tag label

section Tag

variable {label : ℓ'}

@[simp] theorem tag_pure (a : α) :
    (Pure.pure a : Prog σ ℓ ε α).tag label = Pure.pure a := rfl

@[simp] theorem tag_throw (e : ε) :
    (MonadExcept.throw e : Prog σ ℓ ε α).tag label = MonadExcept.throw e := rfl

@[simp] theorem tag_bind (p : Prog σ ℓ ε α) (k : α → Prog σ ℓ ε β) :
    (p >>= k).tag label = p.tag label >>= fun a => (k a).tag label := by
  induction p with
  | pure a => rfl
  | throw e => rfl
  | step l act next ih => exact congrArg (step label act) (funext ih)

@[simp] theorem tag_tryCatch (p : Prog σ ℓ ε α) (handler : ε → Prog σ ℓ ε α) :
    (tryCatchThe ε p handler).tag label =
      tryCatchThe ε (p.tag label) fun e => (handler e).tag label := by
  induction p with
  | pure a => rfl
  | throw e => rfl
  | step l act next ih => exact congrArg (step label act) (funext ih)

theorem tag_ite (c : Prop) [Decidable c] (p q : Prog σ ℓ ε α) :
    (if c then p else q).tag label = if c then p.tag label else q.tag label := by
  split <;> rfl

@[simp] theorem tag_lift (l : ℓ) (act : σ → Except ε α × σ) :
    (lift l act).tag label = lift label act := by
  refine congrArg (step label act) (funext fun r => ?_)
  cases r <;> rfl

@[simp] theorem tag_tag {ℓ'' : Type} (label' : ℓ'') (p : Prog σ ℓ ε α) :
    (p.tag label).tag label' = p.tag label' := by
  induction p with
  | pure a => rfl
  | throw e => rfl
  | step l act next ih => exact congrArg (step label' act) (funext ih)

@[simp] theorem tag_labelled (l : ℓ) (p : Prog σ ℓ ε α) :
    (p.labelled l).tag label = p.tag label := by
  induction p with
  | pure a => rfl
  | throw e => rfl
  | step l' act next ih => exact congrArg (step label act) (funext ih)

end Tag

/-- `FaultyRun p s faults r s'`: a run of `p` from `s` in which the steps with the labels `faults`
fail completes with result `r` in `s'`. A step that is let fail has no effect. -/
inductive FaultyRun : Prog σ ℓ ε α → σ → List ℓ → Except ε α → σ → Prop
  | pure (a : α) (s : σ) : FaultyRun (.pure a) s [] (.ok a) s
  | throw (e : ε) (s : σ) : FaultyRun (.throw e) s [] (.error e) s
  | step {γ : Type} {label : ℓ} {act : σ → Except ε γ × σ} {next : Except ε γ → Prog σ ℓ ε α}
      {s s₁ s' : σ} {c : γ} {faults : List ℓ} {r : Except ε α} (hact : act s = (.ok c, s₁))
      (rest : FaultyRun (next (.ok c)) s₁ faults r s') :
      FaultyRun (.step label act next) s faults r s'
  | broken {γ : Type} {label : ℓ} {act : σ → Except ε γ × σ} {next : Except ε γ → Prog σ ℓ ε α}
      {s s₁ s' : σ} {e : ε} {faults : List ℓ} {r : Except ε α} (hact : act s = (.error e, s₁))
      (rest : FaultyRun (next (.error e)) s₁ faults r s') :
      FaultyRun (.step label act next) s (label :: faults) r s'
  | fail {γ : Type} {label : ℓ} {act : σ → Except ε γ × σ} {next : Except ε γ → Prog σ ℓ ε α}
      {s s' : σ} {faults : List ℓ} {r : Except ε α} (e : ε)
      (rest : FaultyRun (next (.error e)) s faults r s') :
      FaultyRun (.step label act next) s (label :: faults) r s'

namespace FaultyRun

variable {p : Prog σ ℓ ε α} {s s' : σ} {faults : List ℓ} {r : Except ε α}

theorem exec (h : FaultyRun p s faults r s') : Exec (fun _ _ => True) p s (some r) s' := by
  induction h with
  | pure a s => exact .pure a s
  | throw e s => exact .throw e s
  | @step γ label act next s s₁ s' c faults r hact rest ih =>
    refine .step ?_
    rw [hact]
    exact ih
  | @broken γ label act next s s₁ s' e faults r hact rest ih =>
    refine .step ?_
    rw [hact]
    exact ih
  | fail e rest ih => exact .fail e trivial ih

private theorem of_exec {interrupts : ℓ → σ → Prop} (h : Exec interrupts p s (some r) s') :
    ∃ faults, FaultyRun p s faults r s' := by
  generalize hr : some r = r' at h
  induction h with
  | pure a s =>
    cases hr
    exact ⟨[], .pure a s⟩
  | throw e s =>
    cases hr
    exact ⟨[], .throw e s⟩
  | @step γ label act next s s' r' rest ih =>
    obtain ⟨faults, hfaults⟩ := ih hr
    rcases hact : act s with ⟨e | c, s₁⟩
    · rw [hact] at hfaults
      exact ⟨_, .broken hact hfaults⟩
    · rw [hact] at hfaults
      exact ⟨_, .step hact hfaults⟩
  | fail e hlabel rest ih =>
    obtain ⟨faults, hfaults⟩ := ih hr
    exact ⟨_, .fail e hfaults⟩
  | stop hlabel => cases hr

theorem of_bind {k : α → Prog σ ℓ ε β} {r : Except ε β}
    (h : FaultyRun (p >>= k) s faults r s') :
    (∃ e, r = .error e ∧ FaultyRun p s faults (.error e) s') ∨
      ∃ a before after s₁, FaultyRun p s before (.ok a) s₁ ∧ FaultyRun (k a) s₁ after r s' ∧
        faults = before ++ after := by
  induction p generalizing s faults with
  | pure a => exact .inr ⟨a, [], faults, s, .pure a s, h, rfl⟩
  | throw e =>
    cases h
    exact .inl ⟨e, rfl, .throw e _⟩
  | step label act next ih =>
    cases h with
    | step hact rest =>
      rcases ih _ rest with ⟨e, he, hp⟩ | ⟨a, before, after, s₁, hp, hk, hsplit⟩
      · exact .inl ⟨e, he, .step hact hp⟩
      · exact .inr ⟨a, before, after, s₁, .step hact hp, hk, hsplit⟩
    | broken hact rest =>
      rcases ih _ rest with ⟨e, he, hp⟩ | ⟨a, before, after, s₁, hp, hk, hsplit⟩
      · exact .inl ⟨e, he, .broken hact hp⟩
      · exact .inr ⟨a, label :: before, after, s₁, .broken hact hp, hk, congrArg _ hsplit⟩
    | fail e' rest =>
      rcases ih _ rest with ⟨e, he, hp⟩ | ⟨a, before, after, s₁, hp, hk, hsplit⟩
      · exact .inl ⟨e, he, .fail e' hp⟩
      · exact .inr ⟨a, label :: before, after, s₁, .fail e' hp, hk, congrArg _ hsplit⟩

theorem of_tryCatch {handler : ε → Prog σ ℓ ε α}
    (h : FaultyRun (tryCatchThe ε p handler) s faults r s') :
    (∃ a, r = .ok a ∧ FaultyRun p s faults (.ok a) s') ∨
      ∃ e before after s₁, FaultyRun p s before (.error e) s₁ ∧
        FaultyRun (handler e) s₁ after r s' ∧ faults = before ++ after := by
  induction p generalizing s faults with
  | pure a =>
    cases h
    exact .inl ⟨a, rfl, .pure a _⟩
  | throw e => exact .inr ⟨e, [], faults, s, .throw e s, h, rfl⟩
  | step label act next ih =>
    cases h with
    | step hact rest =>
      rcases ih _ rest with ⟨a, ha, hp⟩ | ⟨e, before, after, s₁, hp, hh, hsplit⟩
      · exact .inl ⟨a, ha, .step hact hp⟩
      · exact .inr ⟨e, before, after, s₁, .step hact hp, hh, hsplit⟩
    | broken hact rest =>
      rcases ih _ rest with ⟨a, ha, hp⟩ | ⟨e, before, after, s₁, hp, hh, hsplit⟩
      · exact .inl ⟨a, ha, .broken hact hp⟩
      · exact .inr ⟨e, label :: before, after, s₁, .broken hact hp, hh, congrArg _ hsplit⟩
    | fail e' rest =>
      rcases ih _ rest with ⟨a, ha, hp⟩ | ⟨e, before, after, s₁, hp, hh, hsplit⟩
      · exact .inl ⟨a, ha, .fail e' hp⟩
      · exact .inr ⟨e, label :: before, after, s₁, .fail e' hp, hh, congrArg _ hsplit⟩

private theorem of_lift {label : ℓ} {act : σ → Except ε α × σ}
    (h : FaultyRun (lift label act) s faults r s') :
    (∃ a, r = .ok a ∧ act s = (.ok a, s') ∧ faults = []) ∨
      ∃ e, r = .error e ∧ faults = [label] ∧ (act s = (.error e, s') ∨ s' = s) := by
  cases h with
  | step hact rest =>
    cases rest
    exact .inl ⟨_, rfl, hact, rfl⟩
  | broken hact rest =>
    cases rest
    exact .inr ⟨_, rfl, rfl, .inl hact⟩
  | fail e rest =>
    cases rest
    exact .inr ⟨_, rfl, rfl, .inr rfl⟩

theorem of_tag {label : ℓ'} {faults : List ℓ'} (h : FaultyRun (p.tag label) s faults r s') :
    ∃ faults', FaultyRun p s faults' r s' ∧ faults = faults'.map fun _ => label := by
  induction p generalizing s faults with
  | pure a =>
    cases h
    exact ⟨[], .pure a _, rfl⟩
  | throw e =>
    cases h
    exact ⟨[], .throw e _, rfl⟩
  | step l act next ih =>
    cases h with
    | step hact rest =>
      obtain ⟨faults', hp, rfl⟩ := ih _ rest
      exact ⟨faults', .step hact hp, rfl⟩
    | broken hact rest =>
      obtain ⟨faults', hp, rfl⟩ := ih _ rest
      exact ⟨l :: faults', .broken hact hp, rfl⟩
    | fail e rest =>
      obtain ⟨faults', hp, rfl⟩ := ih _ rest
      exact ⟨l :: faults', .fail e hp, rfl⟩

theorem of_tag_lift {label : ℓ'} {l : ℓ} {act : σ → Except ε α × σ} {faults : List ℓ'}
    (h : FaultyRun ((lift l act).tag label) s faults r s') :
    (∃ a, r = .ok a ∧ act s = (.ok a, s') ∧ faults = []) ∨
      ∃ e, r = .error e ∧ faults = [label] ∧ (act s = (.error e, s') ∨ s' = s) := by
  obtain ⟨faults', hlift, rfl⟩ := h.of_tag
  rcases hlift.of_lift with ⟨a, rfl, hact, rfl⟩ | ⟨e, rfl, rfl, hact⟩
  · exact .inl ⟨a, rfl, hact, rfl⟩
  · exact .inr ⟨e, rfl, rfl, hact⟩

theorem tag (h : FaultyRun p s faults r s') (label : ℓ') :
    FaultyRun (p.tag label) s (faults.map fun _ => label) r s' := by
  induction h with
  | pure a s => exact .pure a s
  | throw e s => exact .throw e s
  | step hact rest ih => exact .step hact ih
  | broken hact rest ih => exact .broken hact ih
  | fail e rest ih => exact .fail e ih

end FaultyRun

/-- The run in which the world outside lets the steps fail that the plan gives an error for. -/
def runFaulty : Prog σ ℓ ε α → List (Option ε) → σ → List ℓ × Except ε α × σ
  | .pure a, _, s => ([], .ok a, s)
  | .throw e, _, s => ([], .error e, s)
  | .step label act next, plan, s =>
    match plan.head?.join, act s with
    | some e, _ => ((next (.error e)).runFaulty plan.tail s).map (label :: ·) id
    | none, (.error e, s₁) => ((next (.error e)).runFaulty plan.tail s₁).map (label :: ·) id
    | none, (.ok c, s₁) => (next (.ok c)).runFaulty plan.tail s₁

theorem faultyRun_runFaulty (p : Prog σ ℓ ε α) (plan : List (Option ε)) (s : σ) :
    FaultyRun p s (p.runFaulty plan s).1 (p.runFaulty plan s).2.1 (p.runFaulty plan s).2.2 := by
  induction p generalizing plan s with
  | pure a => exact .pure a s
  | throw e => exact .throw e s
  | step label act next ih =>
    rw [runFaulty]
    split
    · rename_i e _
      exact .fail e (ih (.error e) plan.tail s)
    · rename_i e s₁ _ hact
      exact .broken hact (ih (.error e) plan.tail s₁)
    · rename_i c s₁ _ hact
      exact .step hact (ih (.ok c) plan.tail s₁)

theorem exec_iff_faultyRun {p : Prog σ ℓ ε α} {q : Prog σ ℓ' ε α} (hsame : p.tag () = q.tag ())
    {s s' : σ} {r : Except ε α} :
    Exec (fun _ _ => True) p s (some r) s' ↔ ∃ faults, FaultyRun q s faults r s' := by
  constructor
  · intro h
    obtain ⟨faults, hp⟩ := FaultyRun.of_exec h
    obtain ⟨faults', hq, -⟩ := FaultyRun.of_tag (hsame ▸ hp.tag ())
    exact ⟨faults', hq⟩
  · rintro ⟨faults, hq⟩
    obtain ⟨faults', hp, -⟩ := FaultyRun.of_tag (hsame.symm ▸ hq.tag ())
    exact hp.exec

end Prog

end Program
