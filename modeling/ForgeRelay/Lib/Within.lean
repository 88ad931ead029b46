import ForgeRelay.Lib.CrashLogic

/-!
# What all steps of a program do

An invariant that the steps of a program keep, a bound on what each of them does, and one on the
errors it throws. It holds whatever others do between the steps as long as they keep the
invariant, and of interrupted runs too, also in the middle of them.
-/

namespace Program

variable {σ ℓ ε α β : Type}

/-- An invariant, a preorder in which the steps lie, and the errors that may be thrown. -/
structure Bound (σ ε : Type) where
  inv : σ → Prop
  rel : σ → σ → Prop
  err : ε → Prop
  refl : ∀ s, rel s s
  trans : ∀ {a b c}, rel a b → rel b c → rel a c

namespace Bound

variable (B : Bound σ ε)

/-- The step is within the bound. -/
def Step (s s' : σ) : Prop := B.rel s s' ∧ B.inv s'

/-- A result that meets `V`, or an error that may be thrown. -/
def Result (V : α → Prop) : Except ε α → Prop
  | .ok a => V a
  | .error e => B.err e

/-- No bound at all. -/
def any : Bound σ ε := ⟨fun _ => True, fun _ _ => True, fun _ => True, fun _ => trivial,
  fun _ _ => trivial⟩

theorem Step.refl {B : Bound σ ε} {s : σ} (hs : B.inv s) : B.Step s s := ⟨B.refl s, hs⟩

theorem Step.trans {B : Bound σ ε} {a b c : σ} (h : B.Step a b) (h' : B.Step b c) : B.Step a c :=
  ⟨B.trans h.1 h'.1, h'.2⟩

end Bound

namespace Prog

/-- From every state with the invariant each step is within the bound, also behind a failure, and
what the program returns meets `V`. -/
def Within (B : Bound σ ε) (V : α → Prop) : Prog σ ℓ ε α → Prop
  | .pure a => V a
  | .throw e => B.err e
  | .step _ act next =>
    (∀ s, B.inv s → B.Step s (act s).2 ∧ Within B V (next (act s).1)) ∧
      ∀ e, B.err e → Within B V (next (.error e))

/-- The same for a program whose result does not matter. -/
abbrev Stays (B : Bound σ ε) (p : Prog σ ℓ ε α) : Prop := Within B (fun _ => True) p

namespace Within

variable {B : Bound σ ε} {V V' : α → Prop} {W : β → Prop}

theorem pure {a : α} (ha : V a) : Within B V (Pure.pure a : Prog σ ℓ ε α) := ha

theorem throw {e : ε} (he : B.err e) : Within B V (MonadExcept.throw e : Prog σ ℓ ε α) := he

theorem ofExcept {r : Except ε α} (hr : B.Result V r) :
    Within B V (Prog.ofExcept r : Prog σ ℓ ε α) := by
  cases r <;> exact hr

theorem lift {label : ℓ} {act : σ → Except ε α × σ}
    (hact : ∀ s, B.inv s → B.Step s (act s).2 ∧ B.Result V (act s).1) :
    Within B V (Prog.lift label act) :=
  ⟨fun s hs => ⟨(hact s hs).1, ofExcept (hact s hs).2⟩, fun _ => id⟩

theorem mono {p : Prog σ ℓ ε α} (hp : Within B V p) (himp : ∀ a, V a → V' a) : Within B V' p := by
  induction p with
  | pure a => exact himp a hp
  | throw e => exact hp
  | step label act next ih =>
    exact ⟨fun s hs => ⟨(hp.1 s hs).1, ih _ (hp.1 s hs).2⟩, fun e he => ih _ (hp.2 e he)⟩

theorem stays {p : Prog σ ℓ ε α} (hp : Within B V p) : Stays B p := hp.mono fun _ _ => trivial

theorem bind {p : Prog σ ℓ ε α} {k : α → Prog σ ℓ ε β} (hp : Within B V p)
    (hk : ∀ a, V a → Within B W (k a)) : Within B W (p >>= k) := by
  induction p with
  | pure a => exact hk a hp
  | throw e => exact hp
  | step label act next ih =>
    exact ⟨fun s hs => ⟨(hp.1 s hs).1, ih _ (hp.1 s hs).2⟩, fun e he => ih _ (hp.2 e he)⟩

theorem any (p : Prog σ ℓ ε α) : Stays .any p := by
  induction p with
  | pure a => trivial
  | throw e => trivial
  | step label act next ih => exact ⟨fun s _ => ⟨⟨trivial, trivial⟩, ih _⟩, fun e _ => ih _⟩

theorem seq {p : Prog σ ℓ ε α} {k : α → Prog σ ℓ ε β} (hp : Stays B p)
    (hk : ∀ a, Within B W (k a)) : Within B W (p >>= k) := bind hp fun a _ => hk a

theorem tryCatch {p : Prog σ ℓ ε α} {handler : ε → Prog σ ℓ ε α} (hp : Within B V p)
    (hhandler : ∀ e, B.err e → Within B V (handler e)) :
    Within B V (tryCatchThe ε p handler) := by
  induction p with
  | pure a => exact hp
  | throw e => exact hhandler e hp
  | step label act next ih =>
    exact ⟨fun s hs => ⟨(hp.1 s hs).1, ih _ (hp.1 s hs).2⟩, fun e he => ih _ (hp.2 e he)⟩

theorem ite {c : Prop} [Decidable c] {p q : Prog σ ℓ ε α} (hp : c → Within B V p)
    (hq : ¬ c → Within B V q) : Within B V (if c then p else q) := by
  split
  · exact hp ‹_›
  · exact hq ‹_›

theorem forM {γ : Type} {xs : List γ} {body : γ → Prog σ ℓ ε Unit}
    (hbody : ∀ x ∈ xs, Stays B (body x)) : Stays B (xs.forM body) := by
  induction xs with
  | nil => exact pure trivial
  | cons x xs ih =>
    obtain ⟨hx, hxs⟩ := List.forall_mem_cons.mp hbody
    exact seq hx fun _ => ih hxs

theorem labelled {label : ℓ} {p : Prog σ ℓ ε α} (hp : Within B V p) :
    Within B V (p.labelled label) := by
  induction p with
  | pure a => exact hp
  | throw e => exact hp
  | step l act next ih =>
    exact ⟨fun s hs => ⟨(hp.1 s hs).1, ih _ (hp.1 s hs).2⟩, fun e he => ih _ (hp.2 e he)⟩

theorem run {p : Prog σ ℓ ε α} (hp : Within B V p) {s : σ} (hs : B.inv s) :
    B.Step s (p.run s).2 ∧ B.Result V (p.run s).1 := by
  induction p generalizing s with
  | pure a => exact ⟨.refl hs, hp⟩
  | throw e => exact ⟨.refl hs, hp⟩
  | step label act next ih =>
    obtain ⟨hstep, hrest⟩ := hp.1 s hs
    exact ⟨hstep.trans (ih _ hrest hstep.2).1, (ih _ hrest hstep.2).2⟩

theorem transaction {label : ℓ} {p : Prog σ ℓ ε α} (hp : Within B V p) :
    Within B V (Prog.transaction label p) := by
  refine lift fun s hs => ?_
  obtain ⟨hstep, hresult⟩ := hp.run hs
  rcases hrun : p.run s with ⟨e | a, s'⟩
  · rw [hrun] at hresult
    exact ⟨.refl hs, hresult⟩
  · rw [hrun] at hstep hresult
    exact ⟨hstep, hresult⟩

end Within

/-- A run of `p` from `s` passes `s'`, where `p'` is left of the program. -/
inductive Passes (interrupts : ℓ → σ → Prop) : Prog σ ℓ ε α → σ → Prog σ ℓ ε α → σ → Prop
  | here (p : Prog σ ℓ ε α) (s : σ) : Passes interrupts p s p s
  | step {γ : Type} {label : ℓ} {act : σ → Except ε γ × σ} {next : Except ε γ → Prog σ ℓ ε α}
      {s s' : σ} {p' : Prog σ ℓ ε α} (rest : Passes interrupts (next (act s).1) (act s).2 p' s') :
      Passes interrupts (.step label act next) s p' s'
  | fail {γ : Type} {label : ℓ} {act : σ → Except ε γ × σ} {next : Except ε γ → Prog σ ℓ ε α}
      {s s' : σ} {p' : Prog σ ℓ ε α} (e : ε) (hlabel : interrupts label s)
      (rest : Passes interrupts (next (.error e)) s p' s') :
      Passes interrupts (.step label act next) s p' s'

section

variable {interrupts : ℓ → σ → Prop} {B : Bound σ ε} {V : α → Prop} {p p' : Prog σ ℓ ε α}
  {s s' s'' : σ} {r : Option (Except ε α)}

theorem Passes.exec (h : Passes interrupts p s p' s')
    (hexec : Exec interrupts p' s' r s'') : Exec interrupts p s r s'' := by
  induction h with
  | here => exact hexec
  | step _ ih => exact .step (ih hexec)
  | fail e hlabel _ ih => exact .fail e hlabel (ih hexec)

/-- If every interruption is considered, a run can stop wherever it passes. -/
theorem Passes.stopped (h : Passes interrupts p s p' s') (hall : ∀ l s, interrupts l s) :
    ∃ r, Exec interrupts p s r s' := by
  have hstop : ∃ r, Exec interrupts p' s' r s' := by
    cases p' with
    | pure a => exact ⟨_, .pure a s'⟩
    | throw e => exact ⟨_, .throw e s'⟩
    | step label act next => exact ⟨_, .stop (hall label s')⟩
  obtain ⟨r, hexec⟩ := hstop
  exact ⟨r, h.exec hexec⟩

/-- However a run is interrupted, it stays within a bound that allows all errors, and so does what
is left of it. -/
theorem Within.passes (hp : Within B V p) (h : Passes interrupts p s p' s')
    (herr : ∀ e, B.err e) (hs : B.inv s) : B.Step s s' ∧ Within B V p' := by
  induction h with
  | here p s => exact ⟨.refl hs, hp⟩
  | step rest ih =>
    obtain ⟨hstep, hrest⟩ := hp.1 _ hs
    exact ⟨hstep.trans (ih hrest hstep.2).1, (ih hrest hstep.2).2⟩
  | fail e hlabel rest ih => exact ih (hp.2 e (herr e)) hs

theorem Within.exec (hp : Within B V p) (h : Exec interrupts p s r s') (herr : ∀ e, B.err e)
    (hs : B.inv s) : B.Step s s' := by
  induction h with
  | pure a s => exact .refl hs
  | throw e s => exact .refl hs
  | step rest ih =>
    obtain ⟨hstep, hrest⟩ := hp.1 _ hs
    exact hstep.trans (ih hrest hstep.2)
  | fail e hlabel rest ih => exact ih (hp.2 e (herr e)) hs
  | stop hlabel => exact .refl hs

end

end Prog

end Program
