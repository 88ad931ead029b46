import Mathlib.Data.List.Basic

/-!
# Runs of a system

A run is the list of the events that took place, one step for each. What every step keeps, every
run keeps. A machine that answers requests takes one after the other; two machines whose related
states give the same answers, and stay related, cannot be told apart by any sequence of requests.
-/

namespace Trace

variable {σ ε : Type*}

/-- The steps of `step` lead from one state to another with these events. -/
inductive Run (step : σ → ε → σ → Prop) : σ → List ε → σ → Prop
  | nil (s : σ) : Run step s [] s
  | cons {s s' s'' : σ} {e : ε} {es : List ε} (head : step s e s') (tail : Run step s' es s'') :
      Run step s (e :: es) s''

variable {step step' : σ → ε → σ → Prop} {s s' s'' : σ} {es es' : List ε}

theorem Run.single {e : ε} (h : step s e s') : Run step s [e] s' := .cons h (.nil s')

theorem Run.append (h : Run step s es s') (h' : Run step s' es' s'') :
    Run step s (es ++ es') s'' := by
  induction h with
  | nil s => exact h'
  | cons head _ ih => exact .cons head (ih h')

theorem Run.split (h : Run step s (es ++ es') s'') :
    ∃ s', Run step s es s' ∧ Run step s' es' s'' := by
  induction es generalizing s with
  | nil => exact ⟨s, .nil s, h⟩
  | cons e es ih =>
    cases h with
    | cons head tail =>
      obtain ⟨s', hs, hs'⟩ := ih tail
      exact ⟨s', .cons head hs, hs'⟩

theorem Run.mono (h : Run step s es s') (hstep : ∀ s e s', step s e s' → step' s e s') :
    Run step' s es s' := by
  induction h with
  | nil s => exact .nil s
  | cons head _ ih => exact .cons (hstep _ _ _ head) ih

/-- The invariant rule. -/
theorem Run.invariant {I : σ → Prop} (h : Run step s es s')
    (hstep : ∀ s e s', e ∈ es → I s → step s e s' → I s') (hstart : I s) : I s' := by
  induction h with
  | nil s => exact hstart
  | cons head _ ih =>
    refine ih (fun s e s' he => hstep s e s' (List.mem_cons_of_mem _ he)) ?_
    exact hstep _ _ _ List.mem_cons_self hstart head

private theorem Run.history_after {I : List ε → σ → Prop} {before : List ε} (h : Run step s es s')
    (hstep : ∀ done e rest s s', before ++ es = done ++ e :: rest → I done s → step s e s' →
      I (done ++ [e]) s') (hstart : I before s) : I (before ++ es) s' := by
  induction h generalizing before with
  | nil s => rwa [List.append_nil]
  | @cons s s' s'' e es head _ ih =>
    have hsplit : before ++ e :: es = (before ++ [e]) ++ es := by simp
    rw [hsplit]
    exact ih (fun done e' rest s s' hes => hstep done e' rest s s' (hsplit.trans hes))
      (hstep before e es s s' rfl hstart head)

/-- The rule for what holds of a state and the events that have led to it. -/
theorem Run.history {I : List ε → σ → Prop} (h : Run step s es s')
    (hstep : ∀ done e rest s s', es = done ++ e :: rest → I done s → step s e s' →
      I (done ++ [e]) s') (hstart : I [] s) : I es s' := by
  rw [← List.nil_append es]
  exact h.history_after (fun done e rest s s' hes => hstep done e rest s s' hes) hstart

/-- The state after the events, if each of them passes the check and is possible. -/
def playIf (next : σ → ε → Option σ) (check : σ → ε → Bool) : σ → List ε → Option σ
  | s, [] => some s
  | s, e :: es => if check s e then (next s e).bind fun s' => playIf next check s' es else none

theorem playIf_run {next : σ → ε → Option σ} {check : σ → ε → Bool}
    (h : playIf next check s es = some s')
    (hstep : ∀ s e s', check s e = true → next s e = some s' → step s e s') :
    Run step s es s' := by
  induction es generalizing s with
  | nil =>
    cases h
    exact .nil _
  | cons e es ih =>
    rw [playIf] at h
    split at h
    · rename_i hcheck
      obtain ⟨s₁, hnext, hrest⟩ := Option.bind_eq_some_iff.mp h
      exact .cons (hstep _ _ _ hcheck hnext) (ih hrest)
    · cases h

end Trace

namespace Answers

variable {σ τ ι ο : Type*}

/-- The answers to the requests in their order, and the state behind the last one. -/
def run (step : ι → σ → ο × σ) : List ι → σ → List ο × σ
  | [], s => ([], s)
  | i :: is, s => ((step i s).1 :: (run step is (step i s).2).1, (run step is (step i s).2).2)

/-- Related states answer every admissible request alike and are related behind it. -/
structure Simulates (step : ι → σ → ο × σ) (step' : ι → τ → ο × τ) (admissible : ι → Prop)
    (R : σ → τ → Prop) : Prop where
  answer : ∀ i s t, admissible i → R s t → (step i s).1 = (step' i t).1
  next : ∀ i s t, admissible i → R s t → R (step i s).2 (step' i t).2

variable {step : ι → σ → ο × σ} {step' : ι → τ → ο × τ} {admissible : ι → Prop}
  {R : σ → τ → Prop} {s : σ} {t : τ} {is : List ι}

theorem Simulates.of_step
    (h : ∀ i s t, admissible i → R s t → ∃ o s' t', step i s = (o, s') ∧ step' i t = (o, t') ∧
      R s' t') : Simulates step step' admissible R where
  answer := by
    intro i s t hi hR
    obtain ⟨o, s', t', hs, ht, -⟩ := h i s t hi hR
    rw [hs, ht]
  next := by
    intro i s t hi hR
    obtain ⟨o, s', t', hs, ht, hR'⟩ := h i s t hi hR
    rwa [hs, ht]

/-- The simulation rule. -/
theorem Simulates.run (h : Simulates step step' admissible R) (his : ∀ i ∈ is, admissible i)
    (hR : R s t) :
    (Answers.run step is s).1 = (Answers.run step' is t).1 ∧
      R (Answers.run step is s).2 (Answers.run step' is t).2 := by
  induction is generalizing s t with
  | nil => exact ⟨rfl, hR⟩
  | cons i is ih =>
    obtain ⟨hi, his⟩ := List.forall_mem_cons.mp his
    obtain ⟨hanswers, hend⟩ := ih his (h.next i s t hi hR)
    exact ⟨congrArg₂ List.cons (h.answer i s t hi hR) hanswers, hend⟩

end Answers
