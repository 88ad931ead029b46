import Mathlib.Algebra.GroupWithZero.Nat
import Mathlib.Data.List.Basic

/-!
# Encoders, decoders and when one undoes the other

An encoder appends to an output or fails; a decoder takes symbols off the front of an input of
any shape. `Inverts` relates the two, and is composed along the sequencing of both programs.
-/

namespace Codec

variable {σ β ε α γ : Type}

/-- A program that appends to its output or fails. -/
abbrev Encoder (β ε α : Type) := StateT (List β) (Except ε) α

/-- A program that reads from the input state `σ` or fails. -/
abbrev Decoder (σ ε α : Type) := StateT σ (Except ε) α

/-- `count` items, one after the other. -/
def decodeItems (item : Decoder σ ε α) : Nat → Decoder σ ε (List α)
  | 0 => pure []
  | count+1 => do
    let a ← item
    let as ← decodeItems item count
    return a :: as

/-- With `tail` behind it, `dec` takes exactly `taken` off the input and returns `a`. -/
def Reads (rest : σ → List β) (tail : List β) (dec : Decoder σ ε α) (taken : List β) (a : α) :
    Prop :=
  ∀ s, rest s = taken ++ tail → ∃ s', dec.run s = .ok (a, s') ∧ rest s' = tail

/-- What `enc` writes, if it succeeds, is read by `dec` as `a` when `tail` follows. -/
def Inverts (rest : σ → List β) (tail : List β) (enc : Encoder β ε Unit) (dec : Decoder σ ε α)
    (a : α) : Prop :=
  ∀ out out', enc.run out = .ok ((), out') →
    ∃ taken, out' = out ++ taken ∧ Reads rest tail dec taken a

/-- `enc` writes `n` symbols at least. -/
def Writes (n : Nat) (enc : Encoder β ε Unit) : Prop :=
  ∀ out out', enc.run out = .ok ((), out') → out.length + n ≤ out'.length

/-- `enc` succeeds if and only if `fits`, and then writes `n` symbols. -/
def Sized (fits : Prop) (n : Nat) (enc : Encoder β ε Unit) : Prop :=
  ∀ out, (fits → ∃ field, enc.run out = .ok ((), out ++ field) ∧ field.length = n) ∧
    (¬ fits → ∃ e, enc.run out = .error e)

theorem run_seq_ok {enc₁ enc₂ : Encoder β ε Unit} {out out' : List β}
    (h : (enc₁ >>= fun _ => enc₂).run out = .ok ((), out')) :
    ∃ mid, enc₁.run out = .ok ((), mid) ∧ enc₂.run mid = .ok ((), out') := by
  rw [StateT.run_bind] at h
  cases hfirst : enc₁.run out with
  | error e => rw [hfirst] at h; cases h
  | ok r => rw [hfirst] at h; exact ⟨r.2, rfl, h⟩

section Reads

variable {rest : σ → List β} {tail : List β}

theorem Reads.pure (a : α) : Reads rest tail (pure a : Decoder σ ε α) [] a :=
  fun s hs => ⟨s, rfl, hs⟩

theorem Reads.bind {dec : Decoder σ ε α} {next : α → Decoder σ ε γ} {taken₁ taken₂ : List β}
    {a : α} {c : γ} (hdec : Reads rest (taken₂ ++ tail) dec taken₁ a)
    (hnext : Reads rest tail (next a) taken₂ c) :
    Reads rest tail (dec >>= next) (taken₁ ++ taken₂) c := by
  intro s hs
  rw [List.append_assoc] at hs
  obtain ⟨s₁, hrun₁, hrest₁⟩ := hdec s hs
  obtain ⟨s₂, hrun₂, hrest₂⟩ := hnext s₁ hrest₁
  refine ⟨s₂, ?_, hrest₂⟩
  rw [StateT.run_bind, hrun₁]
  exact hrun₂

end Reads

section Inverts

variable {rest : σ → List β} {tail : List β} {enc enc₁ enc₂ : Encoder β ε Unit}

theorem Inverts.pure (a : α) :
    Inverts rest tail (pure () : Encoder β ε Unit) (pure a) a := by
  intro out out' hrun
  cases hrun
  exact ⟨[], by rw [List.append_nil], Reads.pure a⟩

theorem Inverts.bind {dec : Decoder σ ε α} {next : α → Decoder σ ε γ} {a : α} {c : γ}
    (hfirst : ∀ t, Inverts rest t enc₁ dec a) (hsecond : Inverts rest tail enc₂ (next a) c) :
    Inverts rest tail (enc₁ >>= fun _ => enc₂) (dec >>= next) c := by
  intro out out' hrun
  obtain ⟨mid, hrun₁, hrun₂⟩ := run_seq_ok hrun
  obtain ⟨taken₂, hout', hreads₂⟩ := hsecond mid out' hrun₂
  obtain ⟨taken₁, hmid, hreads₁⟩ := hfirst (taken₂ ++ tail) out mid hrun₁
  exact ⟨taken₁ ++ taken₂, by rw [hout', hmid, List.append_assoc], hreads₁.bind hreads₂⟩

theorem Inverts.map {dec : Decoder σ ε α} {a : α} (f : α → γ) (h : Inverts rest tail enc dec a) :
    Inverts rest tail enc (dec >>= fun x => Pure.pure (f x)) (f a) := by
  intro out out' hrun
  obtain ⟨taken, hout', hreads⟩ := h out out' hrun
  refine ⟨taken, hout', ?_⟩
  have hpack : Reads rest tail (Pure.pure (f a) : Decoder σ ε γ) [] (f a) := Reads.pure (f a)
  rw [← List.append_nil taken]
  exact Reads.bind hreads hpack

theorem Inverts.items {xs : List α} {item : α → Encoder β ε Unit} {dec : Decoder σ ε γ}
    {f : α → γ} (tail : List β)
    (hitem : ∀ x ∈ xs, ∀ t, Inverts rest t (item x) dec (f x)) :
    Inverts rest tail (xs.forM item) (decodeItems dec xs.length) (xs.map f) := by
  induction xs with
  | nil => exact Inverts.pure []
  | cons x xs ih =>
    have hxs : ∀ y ∈ xs, ∀ t, Inverts rest t (item y) dec (f y) :=
      fun y hy => hitem y (List.mem_cons_of_mem x hy)
    exact Inverts.bind (hitem x List.mem_cons_self) ((ih hxs).map (f x :: ·))

end Inverts

/-- On an input that ends before the end of `taken`, `dec` fails with an error of this kind. -/
def Fails (rest : σ → List β) (E : ε → Prop) (dec : Decoder σ ε α) (taken : List β) : Prop :=
  ∀ s missing, rest s ++ missing = taken → missing ≠ [] → ∃ e, dec.run s = .error e ∧ E e

/-- On what `enc` writes, if it succeeds, `dec` fails as long as any of it is missing. -/
def Cuts (rest : σ → List β) (E : ε → Prop) (enc : Encoder β ε Unit) (dec : Decoder σ ε α) : Prop :=
  ∀ out out', enc.run out = .ok ((), out') →
    ∃ taken, out' = out ++ taken ∧ Fails rest E dec taken

section Cuts

variable {rest : σ → List β} {E : ε → Prop} {enc enc₁ enc₂ : Encoder β ε Unit}

theorem Fails.bind_left {dec : Decoder σ ε α} {taken : List β} (h : Fails rest E dec taken)
    (next : α → Decoder σ ε γ) : Fails rest E (dec >>= next) taken := by
  intro s missing hs hne
  obtain ⟨e, hrun, he⟩ := h s missing hs hne
  refine ⟨e, ?_, he⟩
  rw [StateT.run_bind, hrun]
  rfl

theorem Fails.bind {dec : Decoder σ ε α} {next : α → Decoder σ ε γ} {taken₁ taken₂ : List β}
    {a : α} (hreads : ∀ t, Reads rest t dec taken₁ a) (hfirst : Fails rest E dec taken₁)
    (hsecond : Fails rest E (next a) taken₂) :
    Fails rest E (dec >>= next) (taken₁ ++ taken₂) := by
  intro s missing hs hne
  have hrun : ∀ part, rest s = taken₁ ++ part → part ++ missing = taken₂ →
      ∃ e, (dec >>= next).run s = .error e ∧ E e := by
    intro part hpart hrest
    obtain ⟨s', hrun, htail⟩ := hreads part s hpart
    rw [StateT.run_bind, hrun]
    exact hsecond s' missing (htail ▸ hrest) hne
  rcases List.append_eq_append_iff.mp hs with ⟨x, htaken, hmissing⟩ | ⟨x, hx, hrest⟩
  · rcases eq_or_ne x [] with rfl | hx
    · exact hrun [] (by rw [htaken, List.append_nil, List.append_nil]) hmissing
    · exact hfirst.bind_left next s x htaken.symm hx
  · exact hrun x hx hrest.symm

theorem Fails.of_error {dec : Decoder σ ε α} (h : ∀ s, ∃ e, dec.run s = .error e ∧ E e)
    (taken : List β) : Fails rest E dec taken := fun s _ _ _ => h s

theorem Cuts.pure (a : α) : Cuts rest E (pure () : Encoder β ε Unit) (pure a) := by
  intro out out' hrun
  cases hrun
  refine ⟨[], by rw [List.append_nil], fun s missing hs hne => ?_⟩
  exact absurd (List.append_eq_nil_iff.mp hs).2 hne

/-- `dec` undoes `enc` whatever follows, and fails as long as any of it is missing. -/
structure Delimits (rest : σ → List β) (E : ε → Prop) (enc : Encoder β ε Unit)
    (dec : Decoder σ ε α) (a : α) : Prop where
  inverts : ∀ tail, Inverts rest tail enc dec a
  cuts : Cuts rest E enc dec

theorem Cuts.bind {dec : Decoder σ ε α} {next : α → Decoder σ ε γ} {a : α}
    (hfirst : Delimits rest E enc₁ dec a) (hsecond : Cuts rest E enc₂ (next a)) :
    Cuts rest E (enc₁ >>= fun _ => enc₂) (dec >>= next) := by
  intro out out' hrun
  obtain ⟨mid, hrun₁, hrun₂⟩ := run_seq_ok hrun
  obtain ⟨taken₁, hmid, hfails₁⟩ := hfirst.cuts out mid hrun₁
  obtain ⟨taken₂, hout', hfails₂⟩ := hsecond mid out' hrun₂
  refine ⟨taken₁ ++ taken₂, by rw [hout', hmid, List.append_assoc],
    .bind (fun t => ?_) hfails₁ hfails₂⟩
  obtain ⟨taken, htaken, hread⟩ := hfirst.inverts t out mid hrun₁
  rwa [List.append_cancel_left (hmid.symm.trans htaken)]

theorem Cuts.map {dec : Decoder σ ε α} (f : α → γ) (h : Cuts rest E enc dec) :
    Cuts rest E enc (dec >>= fun x => Pure.pure (f x)) := by
  intro out out' hrun
  obtain ⟨taken, hout', hfails⟩ := h out out' hrun
  exact ⟨taken, hout', hfails.bind_left _⟩

theorem Cuts.of_error {dec : Decoder σ ε α} {dec' : Decoder σ ε γ} (h : Cuts rest E enc dec)
    (herror : ∀ s, ∃ e, dec'.run s = .error e ∧ E e) : Cuts rest E enc dec' := by
  intro out out' hrun
  obtain ⟨taken, hout', -⟩ := h out out' hrun
  exact ⟨taken, hout', .of_error herror taken⟩

theorem Cuts.items {xs : List α} {item : α → Encoder β ε Unit} {dec : Decoder σ ε γ} {f : α → γ}
    (hitem : ∀ x, Delimits rest E (item x) dec (f x)) :
    Cuts rest E (xs.forM item) (decodeItems dec xs.length) := by
  induction xs with
  | nil => exact Cuts.pure []
  | cons x xs ih => exact .bind (hitem x) (ih.map (f x :: ·))

end Cuts

/-- Every error of the program meets `E`. -/
def Raises {τ : Type} (E : ε → Prop) (m : StateT τ (Except ε) α) : Prop :=
  ∀ s e, m.run s = .error e → E e

section Raises

variable {τ : Type} {E : ε → Prop}

theorem Raises.pure (a : α) : Raises E (pure a : StateT τ (Except ε) α) := by
  intro s e h
  cases h

theorem Raises.throw {e : ε} (he : E e) : Raises E (throw e : StateT τ (Except ε) α) := by
  intro s e' h
  cases h
  exact he

theorem Raises.bind {m : StateT τ (Except ε) α} {k : α → StateT τ (Except ε) γ}
    (hm : Raises E m) (hk : ∀ a, Raises E (k a)) : Raises E (m >>= k) := by
  intro s e h
  rw [StateT.run_bind] at h
  cases hfirst : m.run s with
  | error e' =>
    rw [hfirst] at h
    cases h
    exact hm s e hfirst
  | ok r =>
    rw [hfirst] at h
    exact hk r.1 r.2 e h

theorem Raises.items {item : α → StateT τ (Except ε) Unit} (hitem : ∀ x, Raises E (item x))
    (xs : List α) : Raises E (xs.forM item) := by
  induction xs with
  | nil => exact .pure ()
  | cons x xs ih => exact .bind (hitem x) fun _ => ih

end Raises

section Writes

variable {enc enc₁ enc₂ : Encoder β ε Unit} {m n : Nat}

theorem Writes.bind (h₁ : Writes m enc₁) (h₂ : Writes n enc₂) :
    Writes (m + n) (enc₁ >>= fun _ => enc₂) := by
  intro out out' hrun
  obtain ⟨mid, hrun₁, hrun₂⟩ := run_seq_ok hrun
  have hmid := h₁ out mid hrun₁
  have hout' := h₂ mid out' hrun₂
  omega

theorem Writes.items {item : α → Encoder β ε Unit} (xs : List α)
    (hitem : ∀ x ∈ xs, Writes n (item x)) : Writes (xs.length * n) (xs.forM item) := by
  induction xs with
  | nil =>
    intro out out' hrun
    cases hrun
    simp
  | cons x xs ih =>
    have hxs := ih fun y hy => hitem y (List.mem_cons_of_mem x hy)
    have hcons := (hitem x List.mem_cons_self).bind hxs
    rw [List.length_cons, Nat.succ_mul, Nat.add_comm]
    exact hcons

end Writes

section Sized

variable {enc enc₁ enc₂ : Encoder β ε Unit} {fits fits' fits₁ fits₂ : Prop} {m n : Nat}

theorem Sized.of_iff (h : Sized fits m enc) (hfits : fits ↔ fits') (hsize : m = n) :
    Sized fits' n enc := by
  rwa [← hfits, ← hsize]

theorem Sized.pure : Sized True 0 (pure () : Encoder β ε Unit) :=
  fun out => ⟨fun _ => ⟨[], by rw [List.append_nil]; rfl, rfl⟩, fun h => absurd trivial h⟩

theorem Sized.bind (h₁ : Sized fits₁ m enc₁) (h₂ : Sized fits₂ n enc₂) :
    Sized (fits₁ ∧ fits₂) (m + n) (enc₁ >>= fun _ => enc₂) := by
  intro out
  rw [StateT.run_bind]
  by_cases hfits₁ : fits₁
  · obtain ⟨field₁, hrun₁, hlen₁⟩ := (h₁ out).1 hfits₁
    rw [hrun₁]
    refine ⟨fun hboth => ?_, fun hnone => (h₂ _).2 fun hfits₂ => hnone ⟨hfits₁, hfits₂⟩⟩
    obtain ⟨field₂, hrun₂, hlen₂⟩ := (h₂ (out ++ field₁)).1 hboth.2
    refine ⟨field₁ ++ field₂, ?_, by rw [List.length_append, hlen₁, hlen₂]⟩
    rw [← List.append_assoc]
    exact hrun₂
  · obtain ⟨e, hrun₁⟩ := (h₁ out).2 hfits₁
    rw [hrun₁]
    exact ⟨fun hboth => absurd hboth.1 hfits₁, fun _ => ⟨e, rfl⟩⟩

theorem Sized.items {item : α → Encoder β ε Unit} {fits : α → Prop} {size : α → Nat}
    (hitem : ∀ x, Sized (fits x) (size x) (item x)) (xs : List α) :
    Sized (∀ x ∈ xs, fits x) (xs.map size).sum (xs.forM item) := by
  induction xs with
  | nil => exact Sized.pure.of_iff (by simp) rfl
  | cons x xs ih =>
    refine ((hitem x).bind ih).of_iff List.forall_mem_cons.symm ?_
    rw [List.map_cons, List.sum_cons]

end Sized

end Codec
