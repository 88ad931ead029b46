import ForgeRelay.Lib.Program

/-!
# Programs that run side by side

Programs take their steps on a shared state in any order. Each has assertions at its labels, on
which it relies whatever the others do, and a bound on what its own steps do, which the others
may rely on.
-/

namespace Program

variable {σ ℓ ε α β : Type}

namespace Prog

/-- The label of the next step. -/
def head? : Prog σ ℓ ε α → Option ℓ
  | .step label _ _ => some label
  | _ => none

/-- Take the next step, if there is one. -/
def advance : Prog σ ℓ ε α → σ → Prog σ ℓ ε α × σ
  | .step _ act next, s => (next (act s).1, (act s).2)
  | p, s => (p, s)

/-- `p` may run from `s` on beside others: at each step the assertion `J` holds, and from every
state with that assertion the step stays within `G` and the rest of `p` is safe. What `p` returns
meets `Q`. -/
def Safe (J : ℓ → σ → Prop) (G : ℓ → σ → σ → Prop) :
    Prog σ ℓ ε α → (Except ε α → σ → Prop) → σ → Prop
  | .pure a, Q, s => Q (.ok a) s
  | .throw e, Q, s => Q (.error e) s
  | .step label act next, Q, s =>
    J label s ∧ ∀ s', J label s' →
      G label s' (act s').2 ∧ Safe J G (next (act s').1) Q (act s').2

section Rules

variable {J : ℓ → σ → Prop} {G : ℓ → σ → σ → Prop} {Q Q' : Except ε α → σ → Prop} {s s' : σ}

theorem safe_mono {p : Prog σ ℓ ε α} (hp : Safe J G p Q s) (himp : ∀ r s, Q r s → Q' r s) :
    Safe J G p Q' s := by
  induction p generalizing s with
  | pure a => exact himp _ _ hp
  | throw e => exact himp _ _ hp
  | step label act next ih =>
    refine ⟨hp.1, fun s' hs' => ?_⟩
    obtain ⟨hstep, hrest⟩ := hp.2 s' hs'
    exact ⟨hstep, ih _ hrest⟩

theorem safe_weaken {G' : ℓ → σ → σ → Prop} {p : Prog σ ℓ ε α} (hp : Safe J G p Q s)
    (himp : ∀ l s s', G l s s' → G' l s s') : Safe J G' p Q s := by
  induction p generalizing s with
  | pure a => exact hp
  | throw e => exact hp
  | step label act next ih =>
    refine ⟨hp.1, fun s' hs' => ?_⟩
    obtain ⟨hstep, hrest⟩ := hp.2 s' hs'
    exact ⟨himp _ _ _ hstep, ih _ hrest⟩

/-- The rule of sequencing. -/
theorem safe_bind {p : Prog σ ℓ ε α} {k : α → Prog σ ℓ ε β} {Q : Except ε β → σ → Prop}
    (hp : Safe J G p (fun r s' => match r with
      | .ok a => Safe J G (k a) Q s'
      | .error e => Q (.error e) s') s) : Safe J G (p >>= k) Q s := by
  induction p generalizing s with
  | pure a => exact hp
  | throw e => exact hp
  | step label act next ih =>
    refine ⟨hp.1, fun s' hs' => ?_⟩
    obtain ⟨hstep, hrest⟩ := hp.2 s' hs'
    exact ⟨hstep, ih _ hrest⟩

/-- Sequencing by way of a state invariant. -/
theorem safe_seq {I : σ → Prop} {p : Prog σ ℓ ε α} {k : α → Prog σ ℓ ε β}
    {Q : Except ε β → σ → Prop} (hp : Safe J G p (fun _ => I) s)
    (hk : ∀ a s, I s → Safe J G (k a) Q s) (herr : ∀ e s, I s → Q (.error e) s) :
    Safe J G (p >>= k) Q s := by
  refine safe_bind (safe_mono hp fun r s' hI => ?_)
  cases r with
  | ok a => exact hk a s' hI
  | error e => exact herr e s' hI

/-- The rule of exception handling. -/
theorem safe_tryCatch {p : Prog σ ℓ ε α} {handler : ε → Prog σ ℓ ε α}
    (hp : Safe J G p (fun r s' => match r with
      | .ok a => Q (.ok a) s'
      | .error e => Safe J G (handler e) Q s') s) : Safe J G (tryCatchThe ε p handler) Q s := by
  induction p generalizing s with
  | pure a => exact hp
  | throw e => exact hp
  | step label act next ih =>
    refine ⟨hp.1, fun s' hs' => ?_⟩
    obtain ⟨hstep, hrest⟩ := hp.2 s' hs'
    exact ⟨hstep, ih _ hrest⟩

theorem safe_lift {label : ℓ} {act : σ → Except ε α × σ} (hstart : J label s)
    (hact : ∀ s', J label s' → G label s' (act s').2 ∧ Q (act s').1 (act s').2) :
    Safe J G (lift label act) Q s := by
  refine ⟨hstart, fun s' hs' => ⟨(hact s' hs').1, ?_⟩⟩
  have hQ := (hact s' hs').2
  cases hr : (act s').1 <;> rw [hr] at hQ <;> exact hQ

theorem safe_labelled {label : ℓ} {p : Prog σ ℓ ε α}
    (hp : Safe (fun _ => J label) (fun _ => G label) p Q s) : Safe J G (p.labelled label) Q s := by
  induction p generalizing s with
  | pure a => exact hp
  | throw e => exact hp
  | step l act next ih =>
    refine ⟨hp.1, fun s' hs' => ?_⟩
    obtain ⟨hstep, hrest⟩ := hp.2 s' hs'
    exact ⟨hstep, ih _ hrest⟩

theorem Safe.run {I : σ → Prop} {R : σ → σ → Prop} {p : Prog σ ℓ ε α}
    (hp : Safe (fun _ => I) (fun _ => R) p Q s) (hrefl : ∀ s, R s s)
    (htrans : ∀ a b c, R a b → R b c → R a c) :
    R s (p.run s).2 ∧ Q (p.run s).1 (p.run s).2 := by
  induction p generalizing s with
  | pure a => exact ⟨hrefl s, hp⟩
  | throw e => exact ⟨hrefl s, hp⟩
  | step label act next ih =>
    obtain ⟨hstep, hrest⟩ := hp.2 s hp.1
    obtain ⟨hR, hQ⟩ := ih _ hrest
    exact ⟨htrans _ _ _ hstep hR, hQ⟩

/-- The rule of transactions: the body runs alone, and its failure undoes what it has done. -/
theorem safe_transaction {label : ℓ} {p : Prog σ ℓ ε α} (hstart : J label s)
    (hrefl : ∀ s, G label s s)
    (hbody : ∀ s', J label s' → match (p.run s').1 with
      | .ok a => G label s' (p.run s').2 ∧ Q (.ok a) (p.run s').2
      | .error e => Q (.error e) s') :
    Safe J G (transaction label p) Q s := by
  refine safe_lift hstart fun s' hs' => ?_
  have hrun := hbody s' hs'
  revert hrun
  rcases p.run s' with ⟨r | r, s''⟩
  · exact fun hQ => ⟨hrefl s', hQ⟩
  · exact id

theorem advance_of_none {p : Prog σ ℓ ε α} (hhead : p.head? = none) : p.advance s = (p, s) := by
  cases p with
  | step label act next => cases hhead
  | _ => rfl

theorem Safe.advance {p : Prog σ ℓ ε α} {l : ℓ} (hp : Safe J G p Q s) (hhead : p.head? = some l) :
    J l s ∧ G l s (p.advance s).2 ∧ Safe J G (p.advance s).1 Q (p.advance s).2 := by
  cases p with
  | step label act next =>
    cases hhead
    exact ⟨hp.1, hp.2 s hp.1⟩
  | _ => cases hhead

theorem Safe.elsewhere {p : Prog σ ℓ ε α} (hp : Safe J G p (fun _ _ => True) s)
    (hkeeps : ∀ l, p.head? = some l → J l s → J l s') : Safe J G p (fun _ _ => True) s' := by
  cases p with
  | step label act next => exact ⟨hkeeps label rfl hp.1, hp.2⟩
  | _ => trivial

end Rules

/-- Safe from every state with the invariant `I`, which all its steps keep. -/
def Steady (I : σ → Prop) (J : ℓ → σ → Prop) (G : ℓ → σ → σ → Prop) (p : Prog σ ℓ ε α) : Prop :=
  ∀ s, I s → Safe J G p (fun _ => I) s

namespace Steady

variable {I : σ → Prop} {J : ℓ → σ → Prop} {G : ℓ → σ → σ → Prop}

theorem pure (a : α) : Steady I J G (Pure.pure a : Prog σ ℓ ε α) := fun _ hI => hI

theorem throw (e : ε) : Steady I J G (MonadExcept.throw e : Prog σ ℓ ε α) := fun _ hI => hI

theorem weaken {G' : ℓ → σ → σ → Prop} {p : Prog σ ℓ ε α} (hp : Steady I J G p)
    (himp : ∀ l s s', G l s s' → G' l s s') : Steady I J G' p :=
  fun s hI => safe_weaken (hp s hI) himp

theorem bind {p : Prog σ ℓ ε α} {k : α → Prog σ ℓ ε β} (hp : Steady I J G p)
    (hk : ∀ a, Steady I J G (k a)) : Steady I J G (p >>= k) :=
  fun s hI => safe_seq (hp s hI) hk fun _ _ => id

theorem tryCatch {p : Prog σ ℓ ε α} {handler : ε → Prog σ ℓ ε α} (hp : Steady I J G p)
    (hhandler : ∀ e, Steady I J G (handler e)) : Steady I J G (tryCatchThe ε p handler) := by
  refine fun s hI => safe_tryCatch (safe_mono (hp s hI) fun r s' hs' => ?_)
  cases r with
  | ok a => exact hs'
  | error e => exact hhandler e s' hs'

theorem forM {γ : Type} {xs : List γ} {body : γ → Prog σ ℓ ε Unit}
    (hbody : ∀ x, Steady I J G (body x)) : Steady I J G (xs.forM body) := by
  induction xs with
  | nil => exact pure ()
  | cons x xs ih => exact bind (hbody x) fun _ => ih

theorem labelled {label : ℓ} {p : Prog σ ℓ ε α}
    (hp : Steady I (fun _ => J label) (fun _ => G label) p) : Steady I J G (p.labelled label) :=
  fun s hI => safe_labelled (hp s hI)

theorem transaction {label : ℓ} {p : Prog σ ℓ ε α}
    (hp : Steady I (fun _ => J label) (fun _ => G label) p) (hstart : ∀ s, I s → J label s)
    (hkeeps : ∀ s, J label s → I s) (hrefl : ∀ s, G label s s)
    (htrans : ∀ a b c, G label a b → G label b c → G label a c) :
    Steady I J G (Prog.transaction label p) := by
  refine fun s hI => safe_transaction (hstart s hI) hrefl fun s' hs' => ?_
  have hrun := (hp s' (hkeeps s' hs')).run hrefl htrans
  split
  · exact hrun
  · exact hkeeps s' hs'

theorem lift {label : ℓ} {act : σ → Except ε α × σ} (hstart : ∀ s, I s → J label s)
    (hact : ∀ s, J label s → G label s (act s).2 ∧ I (act s).2) :
    Steady I J G (Prog.lift label act) :=
  fun s hI => safe_lift (hstart s hI) hact

end Steady

end Prog

/-- The programs that are running: at most one holds the mutex, and `free` do not use it. -/
structure Pool (σ ℓ ε : Type) : Type 1 where
  state : σ
  holder : Option (Prog σ ℓ ε Unit)
  free : List (Prog σ ℓ ε Unit)

namespace Pool

open Prog

/-- A program takes the mutex, if nobody holds it. -/
def lock (pool : Pool σ ℓ ε) (p : Prog σ ℓ ε Unit) : Pool σ ℓ ε :=
  if pool.holder.isNone then { pool with holder := some p } else pool

/-- A program starts that does not use the mutex. -/
def spawn (pool : Pool σ ℓ ε) (p : Prog σ ℓ ε Unit) : Pool σ ℓ ε :=
  { pool with free := p :: pool.free }

/-- The holder of the mutex takes a step; a program that is at its end releases the mutex. -/
def runHolder (pool : Pool σ ℓ ε) : Pool σ ℓ ε :=
  match pool.holder with
  | none => pool
  | some p =>
    if p.head?.isNone then { pool with holder := none }
    else { pool with state := (p.advance pool.state).2, holder := some (p.advance pool.state).1 }

/-- One of the other programs takes a step. -/
def runFree (pool : Pool σ ℓ ε) (i : Nat) : Pool σ ℓ ε :=
  match pool.free[i]? with
  | none => pool
  | some p =>
    { pool with
      state := (p.advance pool.state).2
      free := pool.free.set i (p.advance pool.state).1 }

/-- What the holder is about to do. -/
def holderLabel? (pool : Pool σ ℓ ε) : Option ℓ := pool.holder.bind head?

/-- What the `i`-th of the other programs is about to do. -/
def freeLabel? (pool : Pool σ ℓ ε) (i : Nat) : Option ℓ := pool.free[i]?.bind head?

/-- Every running program is safe where it stands, with its own assertions and bound. -/
structure AllSafe (J : ℓ → σ → Prop) (G : ℓ → σ → σ → Prop) (Jf : ℓ → σ → Prop)
    (Gf : ℓ → σ → σ → Prop) (pool : Pool σ ℓ ε) : Prop where
  holder : ∀ p, pool.holder = some p → Safe J G p (fun _ _ => True) pool.state
  free : ∀ p ∈ pool.free, Safe Jf Gf p (fun _ _ => True) pool.state

section

variable {J Jf : ℓ → σ → Prop} {G Gf : ℓ → σ → σ → Prop} {pool : Pool σ ℓ ε}

theorem AllSafe.lock {p : Prog σ ℓ ε Unit} (h : AllSafe J G Jf Gf pool)
    (hp : Safe J G p (fun _ _ => True) pool.state) : AllSafe J G Jf Gf (pool.lock p) := by
  unfold Pool.lock
  split
  · refine ⟨fun q hq => ?_, h.free⟩
    cases hq
    exact hp
  · exact h

theorem AllSafe.spawn {p : Prog σ ℓ ε Unit} (h : AllSafe J G Jf Gf pool)
    (hp : Safe Jf Gf p (fun _ _ => True) pool.state) : AllSafe J G Jf Gf (pool.spawn p) := by
  refine ⟨h.holder, fun q hq => ?_⟩
  rcases List.mem_cons.mp hq with rfl | hq
  · exact hp
  · exact h.free q hq

private theorem runHolder_cases (pool : Pool σ ℓ ε) :
    pool.runHolder = pool ∨ pool.runHolder = { pool with holder := none } ∨
      ∃ p l, pool.holder = some p ∧ p.head? = some l ∧
        pool.runHolder = { pool with
          state := (p.advance pool.state).2
          holder := some (p.advance pool.state).1 } := by
  rw [runHolder]
  cases hholder : pool.holder with
  | none => exact .inl rfl
  | some p =>
    cases hhead : p.head? with
    | none => exact .inr (.inl (by simp [hhead]))
    | some l => exact .inr (.inr ⟨p, l, rfl, hhead, by simp [hhead]⟩)

theorem AllSafe.runHolder_state (h : AllSafe J G Jf Gf pool) :
    pool.runHolder.state = pool.state ∨
      ∃ l, pool.holderLabel? = some l ∧ J l pool.state ∧ G l pool.state pool.runHolder.state := by
  rcases pool.runHolder_cases with heq | heq | ⟨p, l, hholder, hhead, heq⟩
  · exact .inl (by rw [heq])
  · exact .inl (by rw [heq])
  · obtain ⟨hJ, hG, -⟩ := (h.holder p hholder).advance hhead
    exact .inr ⟨l, by simp [holderLabel?, hholder, hhead], hJ, by rw [heq]; exact hG⟩

theorem AllSafe.runHolder (h : AllSafe J G Jf Gf pool)
    (hfree : ∀ l, Jf l pool.state → Jf l pool.runHolder.state) :
    AllSafe J G Jf Gf pool.runHolder := by
  rcases pool.runHolder_cases with heq | heq | ⟨p, l, hholder, hhead, heq⟩
  · rw [heq]
    exact h
  · rw [heq]
    refine ⟨fun q hq => ?_, h.free⟩
    cases hq
  · rw [heq] at hfree ⊢
    refine ⟨fun q hq => ?_, fun q hq => (h.free q hq).elsewhere fun l _ => hfree l⟩
    cases hq
    exact ((h.holder p hholder).advance hhead).2.2

private theorem runFree_of_some {i : Nat} {p : Prog σ ℓ ε Unit} (hget : pool.free[i]? = some p) :
    pool.runFree i = { pool with
      state := (p.advance pool.state).2, free := pool.free.set i (p.advance pool.state).1 } := by
  rw [runFree, hget]

private theorem runFree_of_none {i : Nat} (hget : pool.free[i]? = none) :
    pool.runFree i = pool := by
  rw [runFree, hget]

theorem AllSafe.runFree_state (h : AllSafe J G Jf Gf pool) (i : Nat) :
    (pool.runFree i).state = pool.state ∨ ∃ l, pool.freeLabel? i = some l ∧
      Jf l pool.state ∧ Gf l pool.state (pool.runFree i).state := by
  cases hget : pool.free[i]? with
  | none => exact .inl (by rw [runFree_of_none hget])
  | some p =>
    rw [runFree_of_some hget]
    cases hhead : p.head? with
    | none => exact .inl (by rw [advance_of_none hhead])
    | some l =>
      obtain ⟨hJ, hG, -⟩ := (h.free p (List.mem_of_getElem? hget)).advance hhead
      exact .inr ⟨l, by simp [freeLabel?, hget, hhead], hJ, hG⟩

/-- Its step, behind which the state may be moved further, keeps all programs safe if it keeps the
assertion at which the holder is, and those of the others. -/
theorem AllSafe.runFree_moved (h : AllSafe J G Jf Gf pool) (i : Nat) {s : σ}
    (hholder : ∀ l, pool.holderLabel? = some l → J l pool.state → J l s)
    (hfree : ∀ l, Jf l pool.state → Jf l s) (hmoved : ∀ l, Jf l (pool.runFree i).state → Jf l s) :
    AllSafe J G Jf Gf { pool.runFree i with state := s } := by
  have helsewhere : ∀ q, pool.holder = some q → Safe J G q (fun _ _ => True) s :=
    fun q hq => (h.holder q hq).elsewhere fun l hl => hholder l (by
      rw [holderLabel?, hq]
      exact hl)
  cases hget : pool.free[i]? with
  | none =>
    rw [runFree_of_none hget]
    exact ⟨helsewhere, fun q hq => (h.free q hq).elsewhere fun l _ => hfree l⟩
  | some p =>
    rw [runFree_of_some hget] at hmoved ⊢
    refine ⟨helsewhere, fun q hq => ?_⟩
    rcases List.mem_or_eq_of_mem_set hq with hq | rfl
    · exact (h.free q hq).elsewhere fun l _ => hfree l
    have hp := h.free p (List.mem_of_getElem? hget)
    cases hhead : p.head? with
    | none =>
      rw [advance_of_none hhead]
      exact hp.elsewhere fun l _ => hfree l
    | some l => exact (hp.advance hhead).2.2.elsewhere fun l _ => hmoved l

end

end Pool

end Program
