import Mathlib.Data.Set.Basic
import ForgeRelay.Lib.Interleave

/-!
# Changes that a program does not notice

A program is unaware of a change of the state if each of its steps returns the same and leads to
the changed state when the change has come before it. Then it makes no difference at which point of
the program somebody else makes the change.
-/

namespace Program

variable {σ ℓ ε α β : Type}

namespace Prog

/-- The program notices none of the changes in `F`, and the errors it throws are in `E`. -/
def Unaware (F : Set (σ → σ)) (E : Set ε) : Prog σ ℓ ε α → Prop
  | .pure _ => True
  | .throw e => e ∈ E
  | .step _ act next => ∀ s, (∀ f ∈ F, act (f s) = ((act s).1, f (act s).2)) ∧
      Unaware F E (next (act s).1)

theorem run_advance (p : Prog σ ℓ ε α) (s : σ) : (p.advance s).1.run (p.advance s).2 = p.run s := by
  cases p <;> rfl

/-- What a program that is at its end has returned or thrown. -/
def result? : Prog σ ℓ ε α → Option (Except ε α)
  | .pure a => some (.ok a)
  | .throw e => some (.error e)
  | .step _ _ _ => none

theorem run_of_result? {p : Prog σ ℓ ε α} {r : Except ε α} (h : p.result? = some r) (s : σ) :
    p.run s = (r, s) := by
  cases p with
  | step label act next => cases h
  | _ =>
    cases h
    rfl

namespace Unaware

variable {F : Set (σ → σ)} {E E' : Set ε} {f : σ → σ}

theorem pure (a : α) : Unaware F E (Pure.pure a : Prog σ ℓ ε α) := trivial

theorem throw {e : ε} (he : e ∈ E) : Unaware F E (MonadExcept.throw e : Prog σ ℓ ε α) := he

theorem mono {p : Prog σ ℓ ε α} (hp : Unaware F E p) (hE : E ⊆ E') : Unaware F E' p := by
  induction p with
  | pure a => trivial
  | throw e => exact hE hp
  | step label act next ih => exact fun s => ⟨(hp s).1, ih _ (hp s).2⟩

theorem anti {F' : Set (σ → σ)} {p : Prog σ ℓ ε α} (hp : Unaware F E p) (hF : F' ⊆ F) :
    Unaware F' E p := by
  induction p with
  | pure a => trivial
  | throw e => exact hp
  | step label act next ih => exact fun s => ⟨fun f hf => (hp s).1 f (hF hf), ih _ (hp s).2⟩

theorem bind {p : Prog σ ℓ ε α} {k : α → Prog σ ℓ ε β} (hp : Unaware F E p)
    (hk : ∀ a, Unaware F E (k a)) : Unaware F E (p >>= k) := by
  induction p with
  | pure a => exact hk a
  | throw e => exact hp
  | step label act next ih => exact fun s => ⟨(hp s).1, ih _ (hp s).2⟩

theorem tryCatch {p : Prog σ ℓ ε α} {handler : ε → Prog σ ℓ ε α} (hp : Unaware F E p)
    (hhandler : ∀ e ∈ E, Unaware F E' (handler e)) :
    Unaware F E' (tryCatchThe ε p handler) := by
  induction p with
  | pure a => trivial
  | throw e => exact hhandler e hp
  | step label act next ih => exact fun s => ⟨(hp s).1, ih _ (hp s).2⟩

theorem lift {label : ℓ} {act : σ → Except ε α × σ}
    (hact : ∀ s, ∀ f ∈ F, act (f s) = ((act s).1, f (act s).2))
    (herr : ∀ s e, (act s).1 = .error e → e ∈ E) : Unaware F E (Prog.lift label act) := by
  refine fun s => ⟨hact s, ?_⟩
  cases hr : (act s).1 with
  | ok a => trivial
  | error e => exact herr s e hr

theorem labelled {label : ℓ} {p : Prog σ ℓ ε α} (hp : Unaware F E p) :
    Unaware F E (p.labelled label) := by
  induction p with
  | pure a => trivial
  | throw e => exact hp
  | step l act next ih => exact fun s => ⟨(hp s).1, ih _ (hp s).2⟩

theorem run {p : Prog σ ℓ ε α} (hp : Unaware F E p) (hf : f ∈ F) (s : σ) :
    p.run (f s) = ((p.run s).1, f (p.run s).2) := by
  induction p generalizing s with
  | pure a => rfl
  | throw e => rfl
  | step label act next ih =>
    obtain ⟨hact, hnext⟩ := hp s
    rw [Prog.run, hact f hf]
    exact ih _ hnext _

theorem run_error {p : Prog σ ℓ ε α} (hp : Unaware F E p) {s : σ} {e : ε}
    (h : (p.run s).1 = .error e) : e ∈ E := by
  induction p generalizing s with
  | pure a => cases h
  | throw e' =>
    cases h
    exact hp
  | step label act next ih => exact ih _ (hp s).2 h

theorem transaction {label : ℓ} {p : Prog σ ℓ ε α} (hp : Unaware F E p) :
    Unaware F E (Prog.transaction label p) := by
  refine lift (fun s f hf => ?_) fun s e he => ?_
  · rw [hp.run hf]
    rcases p.run s with ⟨r | a, s'⟩ <;> rfl
  · rcases hrun : p.run s with ⟨r | a, s'⟩
    · rw [hrun] at he
      cases he
      exact hp.run_error (congrArg Prod.fst hrun)
    · rw [hrun] at he
      cases he

theorem advance {p : Prog σ ℓ ε α} (hp : Unaware F E p) (s : σ) : Unaware F E (p.advance s).1 := by
  cases p with
  | step label act next => exact (hp s).2
  | _ => exact hp

theorem advance_comm {p : Prog σ ℓ ε α} (hp : Unaware F E p) (hf : f ∈ F) (s : σ) :
    p.advance (f s) = ((p.advance s).1, f (p.advance s).2) := by
  cases p with
  | step label act next =>
    rw [Prog.advance, (hp s).1 f hf]
    rfl
  | _ => rfl

end Unaware

end Prog

end Program
