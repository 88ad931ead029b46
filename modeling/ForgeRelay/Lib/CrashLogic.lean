import ForgeRelay.Lib.Program

/-!
# Interrupted runs and their logic

A run of a program may be interrupted before a step: the process stops there for good, or the
step fails without effect. Which interruptions are considered is a parameter. `wp` is the weakest
precondition for a postcondition on completed runs and a crash condition on stopped ones.
-/

namespace Program

variable {σ ℓ ε α β : Type}

namespace Prog

/-- `Exec interrupts p s r s'`: a run of `p` from `s` ends in `s'`, completed with result `r`
or, if `r` is `none`, stopped. -/
inductive Exec (interrupts : ℓ → σ → Prop) :
    Prog σ ℓ ε α → σ → Option (Except ε α) → σ → Prop
  | pure (a : α) (s : σ) : Exec interrupts (.pure a) s (some (.ok a)) s
  | throw (e : ε) (s : σ) : Exec interrupts (.throw e) s (some (.error e)) s
  | step {γ : Type} {label : ℓ} {act : σ → Except ε γ × σ} {next : Except ε γ → Prog σ ℓ ε α}
      {s s' : σ} {r : Option (Except ε α)}
      (rest : Exec interrupts (next (act s).1) (act s).2 r s') :
      Exec interrupts (.step label act next) s r s'
  | fail {γ : Type} {label : ℓ} {act : σ → Except ε γ × σ} {next : Except ε γ → Prog σ ℓ ε α}
      {s s' : σ} {r : Option (Except ε α)} (e : ε) (hlabel : interrupts label s)
      (rest : Exec interrupts (next (.error e)) s r s') :
      Exec interrupts (.step label act next) s r s'
  | stop {γ : Type} {label : ℓ} {act : σ → Except ε γ × σ} {next : Except ε γ → Prog σ ℓ ε α}
      {s : σ} (hlabel : interrupts label s) : Exec interrupts (.step label act next) s none s

/-- The first `n` steps; `none` if the program has not ended by then. -/
def runFor : Nat → Prog σ ℓ ε α → σ → Option (Except ε α) × σ
  | _, .pure a, s => (some (.ok a), s)
  | _, .throw e, s => (some (.error e), s)
  | 0, .step _ _ _, s => (none, s)
  | n+1, .step _ act next, s => runFor n (next (act s).1) (act s).2

theorem exec_run (interrupts : ℓ → σ → Prop) (p : Prog σ ℓ ε α) (s : σ) :
    Exec interrupts p s (some (p.run s).1) (p.run s).2 := by
  induction p generalizing s with
  | pure a => exact .pure a s
  | throw e => exact .throw e s
  | step label act next ih => exact .step (ih (act s).1 (act s).2)

/-- If every interruption is considered, a run can stop after any number of steps. -/
theorem exec_runFor {interrupts : ℓ → σ → Prop} (hall : ∀ l s, interrupts l s) (n : Nat)
    (p : Prog σ ℓ ε α) (s : σ) : Exec interrupts p s (runFor n p s).1 (runFor n p s).2 := by
  induction p generalizing n s with
  | pure a => cases n <;> exact .pure a s
  | throw e => cases n <;> exact .throw e s
  | step label act next ih =>
    cases n with
    | zero => exact .stop (hall label s)
    | succ n => exact .step (ih (act s).1 n (act s).2)

/-- Completed runs from the state end in `Q`, stopped ones in `crash`. -/
def wp (interrupts : ℓ → σ → Prop) (crash : σ → Prop) :
    Prog σ ℓ ε α → (Except ε α → σ → Prop) → σ → Prop
  | .pure a, Q, s => Q (.ok a) s
  | .throw e, Q, s => Q (.error e) s
  | .step label act next, Q, s =>
    (interrupts label s → crash s ∧ ∀ e, wp interrupts crash (next (.error e)) Q s) ∧
      wp interrupts crash (next (act s).1) Q (act s).2

section Rules

variable {interrupts : ℓ → σ → Prop} {crash : σ → Prop} {Q Q' : Except ε α → σ → Prop} {s s' : σ}

/-- How a run may end: stopped in `crash`, or completed in `Q`. -/
def Ends (crash : σ → Prop) (Q : Except ε α → σ → Prop) : Option (Except ε α) → σ → Prop
  | none, s => crash s
  | some r, s => Q r s

theorem wp_sound {p : Prog σ ℓ ε α} {r : Option (Except ε α)} (hwp : wp interrupts crash p Q s)
    (hexec : Exec interrupts p s r s') : Ends crash Q r s' := by
  induction hexec with
  | pure a s => exact hwp
  | throw e s => exact hwp
  | step rest ih => exact ih hwp.2
  | fail e hlabel rest ih => exact ih ((hwp.1 hlabel).2 e)
  | stop hlabel => exact (hwp.1 hlabel).1

/-- What holds however a run ends is a weakest precondition. -/
theorem wp_of_exec {p : Prog σ ℓ ε α}
    (h : ∀ r s', Exec interrupts p s r s' → Ends crash Q r s') : wp interrupts crash p Q s := by
  induction p generalizing s with
  | pure a => exact h _ _ (.pure a s)
  | throw e => exact h _ _ (.throw e s)
  | step label act next ih =>
    refine ⟨fun hlabel => ⟨h _ _ (.stop hlabel), fun e => ih _ fun r s' hexec => ?_⟩,
      ih _ fun r s' hexec => h _ _ (.step hexec)⟩
    exact h _ _ (.fail e hlabel hexec)

theorem wp_mono {p : Prog σ ℓ ε α} (hwp : wp interrupts crash p Q s)
    (himp : ∀ r s, Q r s → Q' r s) : wp interrupts crash p Q' s := by
  induction p generalizing s with
  | pure a => exact himp _ _ hwp
  | throw e => exact himp _ _ hwp
  | step label act next ih =>
    refine ⟨fun hlabel => ⟨(hwp.1 hlabel).1, fun e => ih _ ((hwp.1 hlabel).2 e)⟩, ih _ hwp.2⟩

@[simp] theorem wp_pure (a : α) :
    wp interrupts crash (Pure.pure a : Prog σ ℓ ε α) Q s ↔ Q (.ok a) s := Iff.rfl

@[simp] theorem wp_throw (e : ε) :
    wp interrupts crash (MonadExcept.throw e : Prog σ ℓ ε α) Q s ↔ Q (.error e) s := Iff.rfl

/-- What a sequence needs before it: its first part has to establish what the second needs. -/
def andThen (interrupts : ℓ → σ → Prop) (crash : σ → Prop) (k : α → Prog σ ℓ ε β)
    (Q : Except ε β → σ → Prop) : Except ε α → σ → Prop
  | .ok a, s => wp interrupts crash (k a) Q s
  | .error e, s => Q (.error e) s

theorem wp_bind {p : Prog σ ℓ ε α} {k : α → Prog σ ℓ ε β} {Q : Except ε β → σ → Prop} :
    wp interrupts crash (p >>= k) Q s ↔
      wp interrupts crash p (andThen interrupts crash k Q) s := by
  induction p generalizing s with
  | pure a => exact Iff.rfl
  | throw e => exact Iff.rfl
  | step label act next ih =>
    exact and_congr
      (imp_congr Iff.rfl (and_congr Iff.rfl (forall_congr' fun e => ih (.error e)))) (ih _)

/-- What a guarded program needs before it. -/
def orElse (interrupts : ℓ → σ → Prop) (crash : σ → Prop) (handler : ε → Prog σ ℓ ε α)
    (Q : Except ε α → σ → Prop) : Except ε α → σ → Prop
  | .ok a, s => Q (.ok a) s
  | .error e, s => wp interrupts crash (handler e) Q s

theorem wp_tryCatch {p : Prog σ ℓ ε α} {handler : ε → Prog σ ℓ ε α} :
    wp interrupts crash (tryCatchThe ε p handler) Q s ↔
      wp interrupts crash p (orElse interrupts crash handler Q) s := by
  induction p generalizing s with
  | pure a => exact Iff.rfl
  | throw e => exact Iff.rfl
  | step label act next ih =>
    exact and_congr
      (imp_congr Iff.rfl (and_congr Iff.rfl (forall_congr' fun e => ih (.error e)))) (ih _)

theorem wp_ofExcept (r : Except ε α) :
    wp interrupts crash (ofExcept r : Prog σ ℓ ε α) Q s ↔ Q r s := by
  cases r <;> exact Iff.rfl

/-- What an interruption at `label` needs: the crash condition, and the failure's outcome. -/
def Interruptible (interrupts : ℓ → σ → Prop) (crash : σ → Prop) (Q : Except ε α → σ → Prop)
    (label : ℓ) (s : σ) : Prop :=
  interrupts label s → crash s ∧ ∀ e, Q (.error e) s

theorem wp_lift {label : ℓ} {act : σ → Except ε α × σ} :
    wp interrupts crash (lift label act) Q s ↔
      Interruptible interrupts crash Q label s ∧ Q (act s).1 (act s).2 :=
  and_congr Iff.rfl (wp_ofExcept _)

/-- A run that nothing interrupts is the run. -/
theorem wp_run {p : Prog σ ℓ ε α} :
    wp (fun _ _ => False) crash p Q s ↔ Q (p.run s).1 (p.run s).2 := by
  induction p generalizing s with
  | pure a => exact Iff.rfl
  | throw e => exact Iff.rfl
  | step label act next ih =>
    exact ⟨fun h => (ih _).mp h.2, fun h => ⟨False.elim, (ih _).mpr h⟩⟩

/-- Nothing interrupts the inside of a transaction; its failure undoes what it has done. -/
private theorem wp_transaction {label : ℓ} {p : Prog σ ℓ ε α}
    (hint : Interruptible interrupts crash Q label s)
    (hbody : wp (fun _ _ => False) crash p
      (fun r s' => match r with
        | .ok a => Q (.ok a) s'
        | .error e => Q (.error e) s) s) :
    wp interrupts crash (transaction label p) Q s := by
  rw [transaction, wp_lift]
  refine ⟨hint, ?_⟩
  have hrun := wp_run.mp hbody
  cases h : p.run s with
  | mk r s' =>
    rw [h] at hrun
    cases r <;> exact hrun

/-- A relabelled program is interrupted where its new label is. -/
theorem wp_labelled {label : ℓ} {p : Prog σ ℓ ε α} :
    wp interrupts crash (p.labelled label) Q s ↔
      wp (fun _ => interrupts label) crash p Q s := by
  induction p generalizing s with
  | pure a => exact Iff.rfl
  | throw e => exact Iff.rfl
  | step l act next ih =>
    exact and_congr
      (imp_congr Iff.rfl (and_congr Iff.rfl (forall_congr' fun e => ih (.error e)))) (ih _)

/-- The loop rule: `I` speaks about the items that are still to come. -/
theorem wp_forM {γ : Type} {xs : List γ} {body : γ → Prog σ ℓ ε Unit}
    {Q : Except ε Unit → σ → Prop} (I : List γ → σ → Prop)
    (hbody : ∀ x rest s, x :: rest <:+ xs → I (x :: rest) s →
      wp interrupts crash (body x) (fun r s' => match r with
        | .ok () => I rest s'
        | .error e => Q (.error e) s') s)
    (hdone : ∀ s, I [] s → Q (.ok ()) s) (hstart : I xs s) :
    wp interrupts crash (xs.forM body) Q s := by
  have hloop : ∀ ys s, ys <:+ xs → I ys s → wp interrupts crash (ys.forM body) Q s := by
    intro ys
    induction ys with
    | nil => intro s _ hI; exact hdone s hI
    | cons y ys ih =>
      intro s hsuffix hI
      change wp interrupts crash (body y >>= fun _ => ys.forM body) Q s
      rw [wp_bind]
      refine wp_mono (hbody y ys s hsuffix hI) fun r s' hr => ?_
      cases r with
      | ok u => exact ih s' ((List.suffix_cons y ys).trans hsuffix) hr
      | error e => exact hr
  exact hloop xs s List.suffix_rfl hstart

/-- A postcondition with one clause for results and one for all errors. -/
def Outcome (err : σ → Prop) (R : α → σ → Prop) : Except ε α → σ → Prop
  | .ok a, s => R a s
  | .error _, s => err s

section Outcome

variable {err : σ → Prop} {R R' : α → σ → Prop}

/-- The rule of sequencing. -/
theorem wp_seq {p : Prog σ ℓ ε α} {k : α → Prog σ ℓ ε β} {R' : β → σ → Prop}
    (hp : wp interrupts crash p (Outcome err R) s)
    (hk : ∀ a s, R a s → wp interrupts crash (k a) (Outcome err R') s) :
    wp interrupts crash (p >>= k) (Outcome err R') s := by
  rw [wp_bind]
  refine wp_mono hp fun r s' hr => ?_
  cases r with
  | ok a => exact hk a s' hr
  | error e => exact hr

/-- The rule of consequence for results. -/
theorem wp_imp {p : Prog σ ℓ ε α} (hp : wp interrupts crash p (Outcome err R) s)
    (himp : ∀ a s, R a s → R' a s) : wp interrupts crash p (Outcome err R') s := by
  refine wp_mono hp fun r s' hr => ?_
  cases r with
  | ok a => exact himp a s' hr
  | error e => exact hr

/-- The rule of exception handling. -/
theorem wp_catch {p : Prog σ ℓ ε α} {handler : ε → Prog σ ℓ ε α} {err' : σ → Prop}
    (hp : wp interrupts crash p (Outcome err' R) s)
    (hhandler : ∀ e s, err' s → wp interrupts crash (handler e) (Outcome err R) s) :
    wp interrupts crash (tryCatchThe ε p handler) (Outcome err R) s := by
  rw [wp_tryCatch]
  refine wp_mono hp fun r s' hr => ?_
  cases r with
  | ok a => exact hr
  | error e => exact hhandler e s' hr

/-- The rule of transactions: their failure is a failure in the state before. -/
theorem wp_atomic {label : ℓ} {p : Prog σ ℓ ε α} (hcrash : crash s) (herr : err s)
    (hbody : wp (fun _ _ => False) (fun _ => True) p (Outcome (fun _ => True) R) s) :
    wp interrupts crash (transaction label p) (Outcome err R) s := by
  refine wp_transaction (fun _ => ⟨hcrash, fun _ => herr⟩) ?_
  have hrun := wp_run.mp hbody
  rw [wp_run]
  cases h : (p.run s).1 with
  | ok a => rw [h] at hrun; exact hrun
  | error e => exact herr

theorem exec_discard {p : Prog σ ℓ ε α} {b : β} {r : Option (Except ε β)}
    (h : Exec interrupts (p >>= fun _ => Pure.pure b) s r s') :
    ∃ r', Exec interrupts p s r' s' ∧ (r = some (.ok b) → ∃ a, r' = some (.ok a)) := by
  have hp : wp interrupts (Exec interrupts p s none) p
      (Outcome (fun s' => ∃ e, Exec interrupts p s (some (.error e)) s')
        fun a s' => Exec interrupts p s (some (.ok a)) s') s := by
    refine wp_of_exec fun r s' hexec => ?_
    rcases r with _ | e | a
    · exact hexec
    · exact ⟨e, hexec⟩
    · exact hexec
  have hseq : wp interrupts (Exec interrupts p s none) (p >>= fun _ => Pure.pure b)
      (Outcome (fun s' => ∃ e, Exec interrupts p s (some (.error e)) s')
        fun _ s' => ∃ a, Exec interrupts p s (some (.ok a)) s') s :=
    wp_seq hp fun a s' hexec => (wp_pure b).mpr
      (show ∃ a, Exec interrupts p s (some (.ok a)) s' from ⟨a, hexec⟩)
  have hends := wp_sound hseq h
  rcases r with _ | e | b'
  · exact ⟨none, hends, by simp⟩
  · obtain ⟨e', hexec⟩ := hends
    exact ⟨_, hexec, by simp⟩
  · obtain ⟨a, hexec⟩ := hends
    exact ⟨_, hexec, fun _ => ⟨a, rfl⟩⟩

/-- What holds however a run ends holds at its end. -/
theorem wp_everywhere {p : Prog σ ℓ ε α} {r : Option (Except ε α)}
    (hp : wp interrupts crash p (Outcome crash fun _ => crash) s)
    (hexec : Exec interrupts p s r s') : crash s' := by
  have hends := wp_sound hp hexec
  cases r with
  | none => exact hends
  | some r => cases r <;> exact hends

end Outcome

end Rules

end Prog

end Program
