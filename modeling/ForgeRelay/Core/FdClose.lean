import ForgeRelay.Core.FdIo
import ForgeRelay.Lib.Trace
import Mathlib.Logic.Function.Basic
import Mathlib.Tactic.Common

/-!
# Closing descriptors

`fr_fd_close` while other threads open and close files. On Linux a `close` that reports an
interruption has released the descriptor, and the loop calls it again: by then the number may
stand for a file of another thread.
-/

namespace ForgeRelay

/-- What `close` reports of a descriptor that is open. -/
inductive CloseResult
  | done
  | failed (errno : Nat)
  deriving DecidableEq, Repr

def ebadf : Nat := 9

/-- The process: which opening a descriptor stands for, the openings being numbered in their order;
and the call of `fr_fd_close`: `*fd`, which is `none` for `FR_FD_INVALID`, the calls of `close` so
far, what it has returned, and which openings it has closed. -/
structure CloseState where
  table : Nat → Option Nat
  opened : Nat
  fd : Option Nat
  attempts : Nat
  returned : Option (Except FrError Unit)
  closed : List Nat

/-- The loop's exit: `*fd` is reset, whatever `close` has reported. -/
def CloseState.exit (s : CloseState) (result : Except FrError Unit) : CloseState :=
  { s with fd := none, returned := some result }

/-- One pass of `fr_fd_close`; `close` releases a descriptor that is open whatever it reports. -/
def closePass (strerror : Nat → Bytes) (results : Nat → CloseResult) (s : CloseState) :
    CloseState :=
  match s.fd with
  | none => { s with returned := some (.ok ()) }
  | some fd =>
    match s.table fd with
    | none => s.exit (.error (mapErrno strerror ebadf (ascii "close")))
    | some opening =>
      let released := { s with
        table := Function.update s.table fd none
        attempts := s.attempts + 1
        closed := s.closed ++ [opening] }
      match results s.attempts with
      | .done => released.exit (.ok ())
      | .failed errno =>
        if errno = eintr then released
        else released.exit (.error (mapErrno strerror errno (ascii "close")))

inductive CloseEvent
  | otherOpens
  | otherCloses (fd : Nat)
  | pass

/-- A step: another thread opens a file and gets the lowest free number, or closes a descriptor
other than the call's own; or the call makes a pass. -/
inductive CloseStep (strerror : Nat → Bytes) (results : Nat → CloseResult) (own : Nat) :
    CloseState → CloseEvent → CloseState → Prop
  | otherOpens {s : CloseState} {fd : Nat} (hfree : s.table fd = none)
      (hlowest : ∀ m < fd, s.table m ≠ none) :
      CloseStep strerror results own s .otherOpens { s with
        table := Function.update s.table fd (some s.opened), opened := s.opened + 1 }
  | otherCloses {s : CloseState} {fd opening : Nat} (hopen : s.table fd = some opening)
      (hother : opening ≠ own) :
      CloseStep strerror results own s (.otherCloses fd) { s with
        table := Function.update s.table fd none }
  | pass {s : CloseState} (hrunning : s.returned = none) :
      CloseStep strerror results own s .pass (closePass strerror results s)

/-- `fr_fd_close` is called on a descriptor of this opening. -/
structure CloseState.Called (s : CloseState) (own : Nat) : Prop where
  owned : ∃ fd, s.fd = some fd ∧ s.table fd = some own
  numbered : own < s.opened
  attempts : s.attempts = 0
  running : s.returned = none
  closed : s.closed = []

variable {strerror : Nat → Bytes} {results : Nat → CloseResult} {own : Nat} {s s' : CloseState}
  {events : List CloseEvent}

private theorem closePass_closed {fd opening : Nat} (hfd : s.fd = some fd)
    (hopen : s.table fd = some opening) :
    (closePass strerror results s).closed = s.closed ++ [opening] := by
  unfold closePass
  rw [hfd]
  dsimp only
  rw [hopen]
  dsimp only
  split
  · rfl
  · split <;> rfl

/-- Before the first `close` the descriptor is the call's own; behind it the call has returned. -/
def CloseState.Once (own : Nat) (s : CloseState) : Prop :=
  (s.attempts = 0 ∧ s.closed = [] ∧ ∃ fd, s.fd = some fd ∧ s.table fd = some own) ∨
  (s.returned ≠ none ∧ s.closed = [own])

private theorem once_pass (hfirst : results 0 ≠ .failed eintr) (honce : s.Once own)
    (hrunning : s.returned = none) : (closePass strerror results s).Once own := by
  obtain ⟨hattempts, hclosed, fd, hfd, hown⟩ := honce.resolve_right fun h => h.1 hrunning
  refine .inr ⟨?_, by rw [closePass_closed hfd hown, hclosed]; rfl⟩
  unfold closePass
  rw [hfd, hattempts]
  dsimp only
  rw [hown]
  cases hresult : results 0 with
  | done => exact Option.some_ne_none _
  | failed errno =>
    have hother : errno ≠ eintr := by
      rintro rfl
      exact hfirst hresult
    dsimp only
    rw [if_neg hother]
    exact Option.some_ne_none _

private theorem once_step {event : CloseEvent} (hfirst : results 0 ≠ .failed eintr)
    (honce : s.Once own) (hstep : CloseStep strerror results own s event s') : s'.Once own := by
  cases hstep with
  | pass hrunning => exact once_pass hfirst honce hrunning
  | @otherOpens fd hfree hlowest =>
    refine honce.imp_left ?_
    rintro ⟨hattempts, hclosed, mine, hmine, hown⟩
    refine ⟨hattempts, hclosed, mine, hmine, ?_⟩
    have hne : mine ≠ fd := by
      rintro rfl
      rw [hfree] at hown
      cases hown
    exact (Function.update_of_ne hne _ _).trans hown
  | @otherCloses fd opening hopen hother =>
    refine honce.imp_left ?_
    rintro ⟨hattempts, hclosed, mine, hmine, hown⟩
    refine ⟨hattempts, hclosed, mine, hmine, ?_⟩
    have hne : mine ≠ fd := by
      rintro rfl
      exact hother (Option.some.inj (hopen.symm.trans hown))
    exact (Function.update_of_ne hne _ _).trans hown

private theorem once_run (hfirst : results 0 ≠ .failed eintr) (hcalled : s.Called own)
    (hrun : Trace.Run (CloseStep strerror results own) s events s') : s'.Once own :=
  hrun.invariant (fun _ _ _ _ honce hstep => once_step hfirst honce hstep)
    (.inl ⟨hcalled.attempts, hcalled.closed, hcalled.owned⟩)

private theorem fill_below {fd : Nat} (hfree : s.table fd = none) (bound : Nat)
    (hbound : bound ≤ fd) :
    ∃ events table opened,
      Trace.Run (CloseStep strerror results own) s events
        { s with table := table, opened := opened } ∧
      s.opened ≤ opened ∧ table fd = none ∧ ∀ m < bound, table m ≠ none := by
  induction bound with
  | zero => exact ⟨[], s.table, s.opened, .nil _, Nat.le_refl _, hfree, by simp⟩
  | succ bound ih =>
    obtain ⟨events, table, opened, hrun, hle, hfree', htaken⟩ := ih (by omega)
    have hne : fd ≠ bound := by omega
    by_cases hnext : table bound = none
    · refine ⟨events ++ [.otherOpens], Function.update table bound (some opened), opened + 1,
        hrun.append (.single (.otherOpens hnext htaken)), by omega,
        (Function.update_of_ne hne _ _).trans hfree', fun m hm => ?_⟩
      by_cases hlast : m = bound
      · rw [hlast, Function.update_self]
        exact Option.some_ne_none _
      · rw [Function.update_of_ne hlast]
        exact htaken m (by omega)
    · refine ⟨events, table, opened, hrun, hle, hfree', fun m hm => ?_⟩
      by_cases hlast : m = bound
      · rwa [hlast]
      · exact htaken m (by omega)

/-- After an interrupted `close` another thread gets the number, and the call closes its file. -/
private theorem interrupted_run (hfirst : results 0 = .failed eintr) (hcalled : s.Called own) :
    ∃ events s', Trace.Run (CloseStep strerror results own) s events s' ∧
      ∃ opening ∈ s'.closed, opening ≠ own := by
  obtain ⟨fd, hfd, hown⟩ := hcalled.owned
  have hpass : closePass strerror results s = { s with
      table := Function.update s.table fd none
      attempts := s.attempts + 1
      closed := s.closed ++ [own] } := by
    unfold closePass
    rw [hfd, hcalled.attempts]
    dsimp only
    rw [hown, hfirst]
    exact if_pos rfl
  have hreleased : (closePass strerror results s).table fd = none := by
    rw [hpass]
    exact Function.update_self ..
  obtain ⟨events, table, opened, hfill, hle, hfree, htaken⟩ :=
    @fill_below strerror results own _ fd hreleased fd (Nat.le_refl _)
  let reused : CloseState := { closePass strerror results s with
    table := Function.update table fd (some opened)
    opened := opened + 1 }
  have hreuse : Trace.Run (CloseStep strerror results own) s
      (.pass :: (events ++ [.otherOpens])) reused :=
    .cons (.pass hcalled.running) (hfill.append (.single (.otherOpens hfree htaken)))
  have hrunning : reused.returned = none := by
    have hreturned : reused.returned = (closePass strerror results s).returned := rfl
    rw [hreturned, hpass]
    exact hcalled.running
  have hfd' : reused.fd = some fd := by
    have hsame : reused.fd = (closePass strerror results s).fd := rfl
    rw [hsame, hpass]
    exact hfd
  refine ⟨_, _, hreuse.append (.single (.pass hrunning)), opened, ?_, ?_⟩
  · rw [closePass_closed hfd' (Function.update_self ..)]
    exact List.mem_append_right _ List.mem_cons_self
  · have hopened : (closePass strerror results s).opened = s.opened := by rw [hpass]
    have hnumbered := hcalled.numbered
    rw [hopened] at hle
    omega

/-- In every interleaving a call closes nothing but the opening that its descriptor stands for, if
and only if its first `close` is not interrupted. -/
theorem frFdClose_owned_iff (strerror : Nat → Bytes) (results : Nat → CloseResult) (own : Nat)
    (s : CloseState) (hcalled : s.Called own) :
    (∀ events s', Trace.Run (CloseStep strerror results own) s events s' →
      ∀ opening ∈ s'.closed, opening = own) ↔ results 0 ≠ .failed eintr := by
  constructor
  · intro hsafe hfirst
    obtain ⟨events, s', hrun, opening, hmem, hne⟩ :=
      @interrupted_run strerror results own s hfirst hcalled
    exact hne (hsafe events s' hrun opening hmem)
  · intro hfirst events s' hrun opening hmem
    rcases once_run hfirst hcalled hrun with ⟨-, hclosed, -⟩ | ⟨-, hclosed⟩
    · rw [hclosed] at hmem
      cases hmem
    · rw [hclosed] at hmem
      exact List.mem_singleton.mp hmem

/-- Descriptor 3 of a process that has four, about to be closed. -/
def sampleClose : CloseState :=
  { table := fun fd => if fd < 4 then some fd else none, opened := 4, fd := some 3, attempts := 0,
    returned := none, closed := [] }

private theorem sampleClose_called : sampleClose.Called 3 :=
  ⟨⟨3, rfl, rfl⟩, by decide, rfl, rfl, rfl⟩

/-- Where no `close` is interrupted. -/
theorem frFdClose_owned_iff_done :
    sampleClose.Called 3 ∧ ∀ events s',
      Trace.Run (CloseStep (fun _ => []) (fun _ => .done) 3) sampleClose events s' →
        ∀ opening ∈ s'.closed, opening = 3 :=
  ⟨sampleClose_called,
    (frFdClose_owned_iff _ _ 3 sampleClose sampleClose_called).mpr (by decide)⟩

/-- The results of a first `close` that is interrupted, and of a second that is not. -/
def interruptedOnce (i : Nat) : CloseResult := if i = 0 then .failed eintr else .done

/-- The first `close` is interrupted, another thread opens a file and gets descriptor 3, and the
second `close` closes it. -/
theorem interrupted_close_closes_other :
    ¬ ∀ (results : Nat → CloseResult) (events : List CloseEvent) (s' : CloseState),
      Trace.Run (CloseStep (fun _ => []) results 3) sampleClose events s' →
        ∀ opening ∈ s'.closed, opening = 3 := by
  intro hsafe
  have hpass : (closePass (fun _ => []) interruptedOnce sampleClose).table 3 = none := by decide
  have hlower : ∀ m < 3, (closePass (fun _ => []) interruptedOnce sampleClose).table m ≠ none := by
    decide
  have hrun := hsafe interruptedOnce [.pass, .otherOpens, .pass] _
    (.cons (.pass rfl) (.cons (.otherOpens hpass hlower) (.single (.pass rfl))))
  exact absurd (hrun 4 (by decide)) (by decide)

end ForgeRelay
