import ForgeRelay.Lib.Interleave
import ForgeRelay.Lib.Rely
import ForgeRelay.Lib.Within

/-!
# The holder of a mutex and its rivals

What programs without the mutex may do in one step is a relation, the moves of the rivals; the
holder of the mutex is verified among such moves. Steps may fail, and all programs may be stopped.
-/

namespace Program

variable {σ ℓ ε α β : Type}

namespace Prog

section Rules

variable {rivals : σ → σ → Prop} {fails : ℓ → σ → σ → Prop} {crash : σ → Prop}
  {Q : Except ε α → σ → Prop} {err : σ → Prop} {R : α → σ → Prop} {s s' : σ}

private theorem wpAmong_rivals (htrans : ∀ a b c, rivals a b → rivals b c → rivals a c)
    (hQ : ∀ r s s', Q r s → rivals s s' → Q r s') {p : Prog σ ℓ ε α}
    (hwp : wpAmong rivals fails crash p Q s) (hrivals : rivals s s') :
    wpAmong rivals fails crash p Q s' := by
  cases p with
  | pure a => exact hQ _ _ _ hwp hrivals
  | throw e => exact hQ _ _ _ hwp hrivals
  | step label act next =>
    intro s₁ hs₁
    exact hwp s₁ (htrans _ _ _ hrivals hs₁)

/-- Whatever is left of the program, the state is good to stop in. -/
private theorem wpAmong_state {p : Prog σ ℓ ε α} (hrefl : ∀ s, rivals s s)
    (hwp : wpAmong rivals fails crash p (fun _ => crash) s) : crash s := by
  cases p with
  | pure a => exact hwp
  | throw e => exact hwp
  | step label act next => exact (hwp s (hrefl s)).1

theorem wpAmong_labelled {label : ℓ} {p : Prog σ ℓ ε α}
    (hwp : wpAmong rivals (fun _ => fails label) crash p Q s) :
    wpAmong rivals fails crash (p.labelled label) Q s := by
  induction p generalizing s with
  | pure a => exact hwp
  | throw e => exact hwp
  | step l act next ih =>
    intro s₁ hrivals
    obtain ⟨hcrash, hfails, hnext⟩ := hwp s₁ hrivals
    exact ⟨hcrash, fun e s₂ h => ih _ (hfails e s₂ h), ih _ hnext⟩

/-- The rule of transactions: the body runs alone, and its failure undoes what it has done. -/
theorem wpAmong_transaction {P : σ → Prop} {label : ℓ} {p : Prog σ ℓ ε α}
    (hkept : ∀ s s', P s → rivals s s' → P s') (hs : P s) (hcrash : ∀ s, P s → crash s)
    (hfails : ∀ s s', P s → fails label s s' → err s') (herr : ∀ s, P s → err s)
    (hbody : ∀ s a s', P s → p.run s = (.ok a, s') → R a s') :
    wpAmong rivals fails crash (transaction label p) (Outcome err R) s := by
  apply wpAmong_lift hkept hs hcrash
  · intro s₁ s₂ e h₁ h
    exact hfails s₁ s₂ h₁ h
  · intro s₁ h₁
    rcases hrun : p.run s₁ with ⟨e | a, s₂⟩
    · exact herr s₁ h₁
    · exact hbody s₁ a s₂ h₁ hrun

/-- A program whose steps are within a bound keeps what the bound, the rivals and the failures
keep. -/
theorem wpAmong_within {B : Bound σ ε} {V : α → Prop} {P : σ → Prop} {p : Prog σ ℓ ε α}
    (hp : Within B V p) (herr : ∀ e, B.err e) (hinv : ∀ s, P s → B.inv s)
    (hstep : ∀ s s', P s → B.Step s s' → P s') (hkept : ∀ s s', P s → rivals s s' → P s')
    (hfails : ∀ l s s', P s → fails l s s' → P s') (hcrash : ∀ s, P s → crash s) (hs : P s) :
    wpAmong rivals fails crash p (Outcome P fun a s' => P s' ∧ V a) s := by
  induction p generalizing s with
  | pure a => exact ⟨hs, hp⟩
  | throw e => exact hs
  | step label act next ih =>
    intro s₁ hrivals
    have hs₁ := hkept s s₁ hs hrivals
    obtain ⟨hbound, hnext⟩ := hp.1 s₁ (hinv s₁ hs₁)
    refine ⟨hcrash s₁ hs₁, fun e s₂ h => ?_, ih _ hnext (hstep s₁ _ hs₁ hbound)⟩
    exact ih _ (hp.2 e (herr e)) (hfails label s₁ s₂ hs₁ h)

end Rules

/-- The steps of the program leave the state alone and return what they would return before a move
of the rivals, and no failure is handled. -/
def Views (rivals : σ → σ → Prop) : Prog σ ℓ ε α → Prop
  | .pure _ => True
  | .throw _ => True
  | .step _ act next => (∀ e, next (.error e) = .throw e) ∧ ∀ s, (act s).2 = s ∧
      (∀ s', rivals s s' → (act s').1 = (act s).1) ∧ Views rivals (next (act s).1)

namespace Views

variable {rivals : σ → σ → Prop} {s s' : σ}

theorem pure (a : α) : Views rivals (Pure.pure a : Prog σ ℓ ε α) := trivial

theorem throw (e : ε) : Views rivals (MonadExcept.throw e : Prog σ ℓ ε α) := trivial

theorem ofExcept (r : Except ε α) : Views rivals (Prog.ofExcept r : Prog σ ℓ ε α) := by
  cases r <;> trivial

theorem lift {label : ℓ} {act : σ → Except ε α × σ}
    (hact : ∀ s, (act s).2 = s ∧ ∀ s', rivals s s' → (act s').1 = (act s).1) :
    Views rivals (Prog.lift label act) :=
  ⟨fun _ => rfl, fun s => ⟨(hact s).1, (hact s).2, ofExcept _⟩⟩

theorem bind {p : Prog σ ℓ ε α} {k : α → Prog σ ℓ ε β} (hp : Views rivals p)
    (hk : ∀ a, Views rivals (k a)) : Views rivals (p >>= k) := by
  induction p with
  | pure a => exact hk a
  | throw e => trivial
  | step label act next ih =>
    refine ⟨fun e => ?_, fun s => ⟨(hp.2 s).1, (hp.2 s).2.1, ih _ (hp.2 s).2.2⟩⟩
    change (next (.error e)).bind k = .throw e
    rw [hp.1 e]
    rfl

theorem ite {c : Prop} [Decidable c] {p q : Prog σ ℓ ε α} (hp : Views rivals p)
    (hq : Views rivals q) : Views rivals (if c then p else q) := by
  split
  · exact hp
  · exact hq

/-- Among the rivals the program returns what it returns alone, unless a step fails. -/
theorem among {fails : ℓ → σ → σ → Prop} {crash : σ → Prop} {err : σ → Prop} {P : σ → Prop}
    {p : Prog σ ℓ ε α} (hp : Views rivals p)
    (htrans : ∀ a b c, rivals a b → rivals b c → rivals a c)
    (hkept : ∀ s s', P s → rivals s s' → P s') (hcrash : ∀ s, P s → crash s)
    (hfails : ∀ l s s', P s → fails l s s' → err s') (hs : P s) (hrefl : rivals s s) :
    wpAmong rivals fails crash p (fun r s' => (P s' ∧ rivals s s' ∧ r = (p.run s).1) ∨
      (∃ e, r = .error e) ∧ err s') s := by
  suffices hfrom : ∀ s', P s' → rivals s s' → wpAmong rivals fails crash p
      (fun r s' => (P s' ∧ rivals s s' ∧ r = (p.run s).1) ∨ (∃ e, r = .error e) ∧ err s') s' from
    hfrom s hs hrefl
  intro s' hs' hmoved
  induction p generalizing s' with
  | pure a => exact .inl ⟨hs', hmoved, rfl⟩
  | throw e => exact .inl ⟨hs', hmoved, rfl⟩
  | step label act next ih =>
    intro s₁ hrivals
    have hs₁ := hkept s' s₁ hs' hrivals
    have hmoved₁ := htrans _ _ _ hmoved hrivals
    obtain ⟨hsame, hreturns, hnext⟩ := hp.2 s
    refine ⟨hcrash s₁ hs₁, fun e s₂ h => ?_, ?_⟩
    · rw [hp.1 e]
      exact .inr ⟨⟨e, rfl⟩, hfails label s₁ s₂ hs₁ h⟩
    · rw [(hp.2 s₁).1, hreturns s₁ hmoved₁]
      have hrest := ih _ hnext s₁ hs₁ hmoved₁
      rw [Prog.run, hsame]
      exact hrest

end Views

/-- The next step fails. -/
def fail : Prog σ ℓ ε α → ε → Prog σ ℓ ε α
  | .step _ _ next, e => next (.error e)
  | p, _ => p

end Prog

namespace Pool

open Prog

/-- The next step of the holder fails, and leaves the given state. -/
def failHolder (pool : Pool σ ℓ ε) (e : ε) (s : σ) : Pool σ ℓ ε :=
  match pool.holder with
  | none => pool
  | some p => if p.head?.isNone then pool else { pool with state := s, holder := some (p.fail e) }

/-- The next step of one of the other programs fails. -/
def failFree (pool : Pool σ ℓ ε) (i : Nat) (e : ε) : Pool σ ℓ ε :=
  match pool.free[i]? with
  | none => pool
  | some p => { pool with free := pool.free.set i (p.fail e) }

/-- The end of all programs. -/
def stop (pool : Pool σ ℓ ε) : Pool σ ℓ ε := ⟨pool.state, none, []⟩

/-- The state is `good`; the holder keeps it so among its rivals; and the others are rivals. -/
structure Guarded (B : Bound σ ε) (fails : ℓ → σ → σ → Prop) (good : σ → Prop)
    (pool : Pool σ ℓ ε) : Prop where
  state : good pool.state
  holder : ∀ p, pool.holder = some p → wpAmong B.rel fails good p (fun _ => good) pool.state
  free : ∀ p ∈ pool.free, Stays B p

/-- What a guard relies on: the rivals and the failures keep what is good. -/
structure Guards (B : Bound σ ε) (fails : ℓ → σ → σ → Prop) (good : σ → Prop) : Prop where
  inv : ∀ s, good s → B.inv s
  err : ∀ e, B.err e
  rivals : ∀ s s', good s → B.rel s s' → good s'

namespace Guarded

variable {B : Bound σ ε} {fails : ℓ → σ → σ → Prop} {good : σ → Prop} {pool : Pool σ ℓ ε}

theorem stop (h : Guarded B fails good pool) : Guarded B fails good pool.stop := by
  refine ⟨h.state, fun p hp => ?_, fun p hp => ?_⟩ <;> cases hp

theorem lock {p : Prog σ ℓ ε Unit} (h : Guarded B fails good pool)
    (hp : wpAmong B.rel fails good p (fun _ => good) pool.state) :
    Guarded B fails good (pool.lock p) := by
  unfold Pool.lock
  split
  · refine ⟨h.state, fun q hq => ?_, h.free⟩
    cases hq
    exact hp
  · exact h

theorem spawn {p : Prog σ ℓ ε Unit} (h : Guarded B fails good pool) (hp : Stays B p) :
    Guarded B fails good (pool.spawn p) :=
  ⟨h.state, h.holder, List.forall_mem_cons.mpr ⟨hp, h.free⟩⟩

theorem runHolder (h : Guarded B fails good pool) : Guarded B fails good pool.runHolder := by
  rw [Pool.runHolder]
  cases hholder : pool.holder with
  | none => exact h
  | some p =>
    have hp := h.holder p hholder
    cases p with
    | pure a => exact ⟨h.state, fun _ hq => (by cases hq), h.free⟩
    | throw e => exact ⟨h.state, fun _ hq => (by cases hq), h.free⟩
    | step label act next =>
      obtain ⟨-, -, hnext⟩ := hp pool.state (B.refl _)
      refine ⟨?_, fun q hq => ?_, h.free⟩
      · exact wpAmong_state B.refl hnext
      · cases hq
        exact hnext

theorem failHolder {e : ε} {s : σ} (h : Guarded B fails good pool)
    (hfails : ∀ l, fails l pool.state s) : Guarded B fails good (pool.failHolder e s) := by
  rw [Pool.failHolder]
  cases hholder : pool.holder with
  | none => exact h
  | some p =>
    have hp := h.holder p hholder
    cases p with
    | pure a => exact h
    | throw e => exact h
    | step label act next =>
      obtain ⟨-, hfail, -⟩ := hp pool.state (B.refl _)
      have hnext := hfail e s (hfails label)
      refine ⟨wpAmong_state B.refl hnext, fun q hq => ?_, h.free⟩
      cases hq
      exact hnext

theorem moved (h : Guarded B fails good pool) (hB : Guards B fails good) {s : σ}
    (hmove : B.rel pool.state s) : Guarded B fails good { pool with state := s } := by
  refine ⟨hB.rivals _ _ h.state hmove, fun q hq => ?_, h.free⟩
  refine wpAmong_rivals ?_ ?_ (h.holder q hq) hmove
  · exact fun _ _ _ => B.trans
  · exact fun _ => hB.rivals

theorem runFree (h : Guarded B fails good pool) (hB : Guards B fails good) (i : Nat) :
    Guarded B fails good (pool.runFree i) := by
  rw [Pool.runFree]
  cases hget : pool.free[i]? with
  | none => exact h
  | some p =>
    have hp := h.free p (List.mem_of_getElem? hget)
    have hset : ∀ q, Stays B q → ∀ p ∈ pool.free.set i q, Stays B p := by
      intro q hq p hp
      rcases List.mem_or_eq_of_mem_set hp with hp | rfl
      · exact h.free p hp
      · exact hq
    cases p with
    | pure a => exact ⟨h.state, h.holder, hset _ hp⟩
    | throw e => exact ⟨h.state, h.holder, hset _ hp⟩
    | step label act next =>
      obtain ⟨hstep, hnext⟩ := hp.1 pool.state (hB.inv _ h.state)
      refine ⟨hB.rivals _ _ h.state hstep.1, fun q hq => ?_, hset _ hnext⟩
      have hholder := h.holder q hq
      refine wpAmong_rivals ?_ ?_ hholder hstep.1
      · exact fun _ _ _ => B.trans
      · exact fun _ => hB.rivals

theorem failFree (h : Guarded B fails good pool) (hB : Guards B fails good) (i : Nat) (e : ε) :
    Guarded B fails good (pool.failFree i e) := by
  rw [Pool.failFree]
  cases hget : pool.free[i]? with
  | none => exact h
  | some p =>
    refine ⟨h.state, h.holder, fun q hq => ?_⟩
    rcases List.mem_or_eq_of_mem_set hq with hq | rfl
    · exact h.free q hq
    · have hp := h.free p (List.mem_of_getElem? hget)
      cases p with
      | step label act next => exact hp.2 e (hB.err e)
      | _ => exact hp

end Guarded

end Pool

end Program
