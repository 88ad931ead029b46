import ForgeRelay.Core.Decimal
import ForgeRelay.Core.RawBuffer

/-!
# Whole buffers to and from files

`fr_fd_write_all` and `fr_fd_read_full` against a kernel that takes or gives as little as it likes,
interrupts and fails. A system call's result is the next one of a given sequence; a loop that
has not ended when the results are used up has no result yet. The texts of `strerror` are the C
library's.
-/

namespace ForgeRelay

def frErrorDetailMax : Nat := 192

/-- `fr_error`, as a failing call leaves it; the call returns the same status. -/
structure FrError where
  code : FrStatus
  detail : Bytes
  deriving DecidableEq, Repr

/-- `fr_error_set`; the text is cut to the size of the field. -/
def frErrorSet (code : FrStatus) (text : Bytes) : FrError :=
  ⟨code, text.take (frErrorDetailMax - 1)⟩

def frErrorSetErrno (strerror : Nat → Bytes) (code : FrStatus) (errno : Nat) (what : Bytes) :
    FrError :=
  frErrorSet code (what ++ ascii ": " ++ strerror errno ++ ascii " (errno=" ++ decimal errno ++
    ascii ")")

def enoent : Nat := 2
def eintr : Nat := 4
def eexist : Nat := 17
def enotdir : Nat := 20

def mapErrno (strerror : Nat → Bytes) (errno : Nat) (what : Bytes) : FrError :=
  if errno = enoent ∨ errno = enotdir then frErrorSetErrno strerror .eNotfound errno what
  else if errno = eexist then frErrorSetErrno strerror .eExists errno what
  else frErrorSetErrno strerror .eIo errno what

private theorem mapErrno_code (strerror : Nat → Bytes) (errno : Nat) (what : Bytes) :
    (mapErrno strerror errno what).code = .eNotfound ∨
      (mapErrno strerror errno what).code = .eExists ∨
      (mapErrno strerror errno what).code = .eIo := by
  unfold mapErrno
  split
  · exact .inl rfl
  · split
    · exact .inr (.inl rfl)
    · exact .inr (.inr rfl)

/-- What `read` or `write` is willing to do: to move so many bytes, or to fail with this `errno`. -/
inductive IoResult
  | count (n : Nat)
  | failed (errno : Nat)
  deriving DecidableEq, Repr

variable (strerror : Nat → Bytes)

/-- The loop of `fr_fd_write_all`, with the bytes that have been given to the kernel. The kernel
takes at most what it is offered. -/
def writeLoop (bytes : Bytes) (off : Nat) (given : Bytes) (results : List IoResult) :
    Option (Except FrError Unit × Bytes) :=
  if off < bytes.length then
    match results with
    | [] => none
    | .failed errno :: results =>
      if errno = eintr then writeLoop bytes off given results
      else some (.error (mapErrno strerror errno (ascii "write")), given)
    | .count w :: results =>
      let taken := (bytes.drop off).take w
      if taken.length = 0 then some (.error (frErrorSet .eIo (ascii "write returned 0")), given)
      else writeLoop bytes (off + taken.length) (given ++ taken) results
  else some (.ok (), given)

/-- `fr_fd_write_all`, and what the kernel has been given by it. -/
def frFdWriteAll (buf : Span) (results : List IoResult) : Option (Except FrError Unit × Bytes) :=
  match buf.bytes? with
  | none => some (.error (frErrorSet .eArg (ascii "write_all: null buffer")), [])
  | some bytes => writeLoop strerror bytes 0 [] results

/-- The loop of `fr_fd_read`, on what is left of the file. The kernel gives at least one byte where
there is one, and nothing only at the end. -/
def readLoop (file : Bytes) (n : Nat) :
    List IoResult → Option (Except FrError Bytes × List IoResult)
  | [] => none
  | .failed errno :: results =>
    if errno = eintr then readLoop file n results
    else some (.error (mapErrno strerror errno (ascii "read")), results)
  | .count r :: results => some (.ok (file.take (min (max 1 r) n)), results)

/-- `fr_fd_read`: the bytes that it puts at the start of the buffer, and the results left. -/
def frFdRead (file : Bytes) (buf : Span) (results : List IoResult) :
    Option (Except FrError Bytes × List IoResult) :=
  match buf.bytes? with
  | none => some (.error (frErrorSet .eArg (ascii "read: null argument")), results)
  | some _ => readLoop strerror file buf.size results

variable {strerror}

private theorem readLoop_length {file : Bytes} {n : Nat} {results rest : List IoResult}
    {result : Except FrError Bytes} (h : readLoop strerror file n results = some (result, rest)) :
    rest.length < results.length := by
  induction results with
  | nil => cases h
  | cons head results ih =>
    cases head with
    | count r =>
      cases h
      exact Nat.lt_succ_self _
    | failed errno =>
      rw [readLoop] at h
      split at h
      · exact Nat.lt_succ_of_lt (ih h)
      · cases h
        exact Nat.lt_succ_self _

variable (strerror)

/-- The loop of `fr_fd_read_full`, on what is left of the file, into a buffer of `n` bytes. -/
def readFullLoop (n : Nat) (file : Bytes) (done : Nat) (out : Bytes) (results : List IoResult) :
    Option (Except FrError Unit × Bytes) :=
  if done < n then
    match _hread : frFdRead strerror file (.memory (out.drop done)) results with
    | none => none
    | some (.error e, _) => some (.error e, out)
    | some (.ok chunk, rest) =>
      if chunk.length = 0 then
        some (.error (frErrorSet .eEof (ascii "read_full: got " ++ decimal done ++ ascii " of " ++
          decimal n ++ ascii " bytes")), out)
      else readFullLoop n (file.drop chunk.length) (done + chunk.length) (writeAt out done chunk)
        rest
  else some (.ok (), out)
termination_by results.length
decreasing_by exact readLoop_length _hread

/-- `fr_fd_read_full`, and the buffer after it. -/
def frFdReadFull (file : Bytes) (buf : Span) (results : List IoResult) :
    Option (Except FrError Unit × Bytes) :=
  match buf.bytes? with
  | none => some (.error (frErrorSet .eArg (ascii "read_full: null buffer")), [])
  | some out => readFullLoop strerror buf.size file 0 out results

variable {strerror}

/-- Whatever the kernel does, it has been given the beginning of the buffer, and all of it by a call
that succeeds. -/
private theorem writeLoop_given {bytes given given' : Bytes} {off : Nat} {results : List IoResult}
    {result : Except FrError Unit} (hgiven : given = bytes.take off)
    (h : writeLoop strerror bytes off given results = some (result, given')) :
    given' <+: bytes ∧ (result = .ok () → given' = bytes) := by
  induction results generalizing off given with
  | nil =>
    rw [writeLoop.eq_def] at h
    split at h
    · cases h
    · cases h
      rw [hgiven, List.take_of_length_le (by omega)]
      exact ⟨List.prefix_refl _, fun _ => rfl⟩
  | cons head results ih =>
    rw [writeLoop.eq_def] at h
    split at h
    · cases head with
      | failed errno =>
        dsimp only at h
        split at h
        · exact ih hgiven h
        · cases h
          exact ⟨hgiven ▸ List.take_prefix _ _, nofun⟩
      | count w =>
        dsimp only at h
        split at h
        · cases h
          exact ⟨hgiven ▸ List.take_prefix _ _, nofun⟩
        · refine ih ?_ h
          rw [hgiven, List.length_take, List.length_drop, List.take_add]
          congr 1
          rw [← List.length_drop]
          exact (List.take_eq_take_min ..)
    · cases h
      rw [hgiven, List.take_of_length_le (by omega)]
      exact ⟨List.prefix_refl _, fun _ => rfl⟩

/-- The call is stopped by an error of `write` that is no interruption, or by a `write` of nothing.
-/
def WriteFails (strerror : Nat → Bytes) (occurs : IoResult → Prop)
    (result : Except FrError Unit) : Prop :=
  (∃ errno, occurs (.failed errno) ∧ errno ≠ eintr ∧
    result = .error (mapErrno strerror errno (ascii "write"))) ∨
  (occurs (.count 0) ∧ result = .error (frErrorSet .eIo (ascii "write returned 0")))

theorem WriteFails.mono {occurs occurs' : IoResult → Prop} {result : Except FrError Unit}
    (h : WriteFails strerror occurs result) (himp : ∀ r, occurs r → occurs' r) :
    WriteFails strerror occurs' result := by
  rcases h with ⟨errno, hocc, hrest⟩ | ⟨hocc, heq⟩
  · exact .inl ⟨errno, himp _ hocc, hrest⟩
  · exact .inr ⟨himp _ hocc, heq⟩

private theorem writeLoop_cases {bytes given given' : Bytes} {off : Nat} {results : List IoResult}
    {result : Except FrError Unit}
    (h : writeLoop strerror bytes off given results = some (result, given')) :
    result = .ok () ∨ WriteFails strerror (· ∈ results) result := by
  induction results generalizing off given with
  | nil =>
    rw [writeLoop.eq_def] at h
    split at h
    · cases h
    · cases h
      exact .inl rfl
  | cons head results ih =>
    rw [writeLoop.eq_def] at h
    split at h
    swap
    · cases h
      exact .inl rfl
    cases head with
    | failed errno =>
      dsimp only at h
      split at h
      · exact (ih h).imp_right fun hfails => hfails.mono fun r => List.mem_cons_of_mem _
      · rename_i hne
        cases h
        exact .inr (.inl ⟨errno, List.mem_cons_self, hne, rfl⟩)
    | count w =>
      dsimp only at h
      split at h
      · rename_i hnone
        cases h
        rw [List.length_take, List.length_drop] at hnone
        obtain rfl : w = 0 := by omega
        exact .inr (.inr ⟨List.mem_cons_self, rfl⟩)
      · exact (ih h).imp_right fun hfails => hfails.mono fun r => List.mem_cons_of_mem _

/-- A result that is no interruption ends the loop or moves it on. -/
def IoResult.Moves (r : IoResult) : Prop := r ≠ .failed eintr

instance : DecidablePred IoResult.Moves := fun r => inferInstanceAs (Decidable (r ≠ _))

private theorem writeLoop_ends {bytes given : Bytes} {off : Nat} {results : List IoResult}
    (henough : bytes.length - off ≤ results.countP (·.Moves)) :
    ∃ outcome, writeLoop strerror bytes off given results = some outcome := by
  induction results generalizing off given with
  | nil =>
    rw [List.countP_nil] at henough
    rw [writeLoop.eq_def, if_neg (by omega)]
    exact ⟨_, rfl⟩
  | cons head results ih =>
    rw [writeLoop.eq_def]
    by_cases hmore : off < bytes.length
    · rw [if_pos hmore]
      cases head with
      | failed errno =>
        dsimp only
        by_cases hintr : errno = eintr
        · rw [if_pos hintr]
          refine ih ?_
          rwa [List.countP_cons_of_neg (by simp [IoResult.Moves, hintr])] at henough
        · rw [if_neg hintr]
          exact ⟨_, rfl⟩
      | count w =>
        dsimp only
        by_cases hzero : ((bytes.drop off).take w).length = 0
        · rw [if_pos hzero]
          exact ⟨_, rfl⟩
        · rw [if_neg hzero]
          refine ih ?_
          rw [List.countP_cons_of_pos (by simp [IoResult.Moves])] at henough
          omega
    · rw [if_neg hmore]
      exact ⟨_, rfl⟩

private theorem readLoop_cases {file : Bytes} {n : Nat} {results rest : List IoResult}
    {result : Except FrError Bytes} (h : readLoop strerror file n results = some (result, rest)) :
    rest <:+ results ∧
    ((∃ r, result = .ok (file.take (min (max 1 r) n))) ∨
      ∃ errno, errno ≠ eintr ∧ .failed errno ∈ results ∧
        result = .error (mapErrno strerror errno (ascii "read"))) := by
  induction results with
  | nil => cases h
  | cons head results ih =>
    cases head with
    | count r =>
      cases h
      exact ⟨List.suffix_cons _ _, .inl ⟨r, rfl⟩⟩
    | failed errno =>
      rw [readLoop] at h
      by_cases hintr : errno = eintr
      · rw [if_pos hintr] at h
        obtain ⟨hsuffix, hresult⟩ := ih h
        refine ⟨hsuffix.trans (List.suffix_cons _ _), hresult.imp_right ?_⟩
        rintro ⟨errno', hne, hmem, heq⟩
        exact ⟨errno', hne, List.mem_cons_of_mem _ hmem, heq⟩
      · rw [if_neg hintr] at h
        cases h
        exact ⟨List.suffix_cons _ _, .inr ⟨errno, hintr, List.mem_cons_self, rfl⟩⟩

private theorem readLoop_ends {file : Bytes} {n : Nat} {results : List IoResult}
    (henough : 0 < results.countP (·.Moves)) :
    ∃ result rest, readLoop strerror file n results = some (result, rest) ∧
      results.countP (·.Moves) ≤ rest.countP (·.Moves) + 1 := by
  induction results with
  | nil => cases henough
  | cons head results ih =>
    cases head with
    | count r =>
      refine ⟨_, _, rfl, ?_⟩
      rw [List.countP_cons_of_pos (by simp [IoResult.Moves])]
    | failed errno =>
      rw [readLoop]
      by_cases hintr : errno = eintr
      · have hskip : (IoResult.failed errno :: results).countP (·.Moves) =
            results.countP (·.Moves) := List.countP_cons_of_neg (by simp [IoResult.Moves, hintr])
        rw [hskip] at henough ⊢
        rw [if_pos hintr]
        exact ih henough
      · rw [if_neg hintr, List.countP_cons_of_pos (by simpa [IoResult.Moves] using hintr)]
        exact ⟨_, _, rfl, Nat.le_refl _⟩

private theorem chunk_spec (file : Bytes) (r n : Nat) :
    ∃ k, file.take (min (max 1 r) n) = file.take k ∧ (file.take k).length = k ∧ k ≤ n ∧
      (0 < n → k = 0 → file = []) := by
  refine ⟨min (min (max 1 r) n) file.length, List.take_eq_take_min, ?_, by omega, ?_⟩
  · rw [List.length_take]
    omega
  · intro hn hzero
    exact List.length_eq_zero_iff.mp (by omega)

private theorem writeAt_done {out chunk : Bytes} {done : Nat}
    (hfits : done + chunk.length ≤ out.length) : (writeAt out done chunk).length = out.length ∧
      (writeAt out done chunk).take (done + chunk.length) = out.take done ++ chunk := by
  have hdone : (out.take done ++ chunk).length = done + chunk.length := by
    rw [List.length_append, List.length_take, Nat.min_eq_left (by omega)]
  refine ⟨?_, List.take_left' hdone⟩
  rw [writeAt, List.length_append, hdone, List.length_drop]
  omega

private theorem readFullLoop_cases {n done : Nat} {file out out' : Bytes} {results : List IoResult}
    {result : Except FrError Unit} (hdone : done ≤ n) (hout : out.length = n)
    (h : readFullLoop strerror n file done out results = some (result, out')) :
    (result = .ok () ∧ n - done ≤ file.length ∧ out' = out.take done ++ file.take (n - done)) ∨
    ((∃ e, result = .error e ∧ e.code = .eEof) ∧ file.length < n - done) ∨
    ∃ errno, errno ≠ eintr ∧ .failed errno ∈ results ∧
      result = .error (mapErrno strerror errno (ascii "read")) := by
  induction hlen : results.length using Nat.strong_induction_on
    generalizing done file out results with
  | _ len ih =>
    subst hlen
    rw [readFullLoop] at h
    by_cases hmore : done < n
    swap
    · rw [if_neg hmore] at h
      cases h
      have hzero : n - done = 0 := by omega
      refine .inl ⟨rfl, by omega, ?_⟩
      rw [hzero, List.take_zero, List.append_nil, List.take_of_length_le (by omega)]
    rw [if_pos hmore] at h
    have hroom : (out.drop done).length = n - done := by rw [List.length_drop, hout]
    split at h
    · cases h
    · rename_i e rest hread
      cases h
      obtain ⟨-, ⟨r, hok⟩ | ⟨errno, hne, hmem, herror⟩⟩ := readLoop_cases hread
      · cases hok
      · cases herror
        exact .inr (.inr ⟨errno, hne, hmem, rfl⟩)
    · rename_i chunk rest hread
      obtain ⟨hsuffix, ⟨r, hok⟩ | ⟨errno, -, -, herror⟩⟩ := readLoop_cases hread
      swap
      · cases herror
      obtain ⟨k, hchunk, hk, hle, hnil⟩ := chunk_spec file r (Span.memory (out.drop done)).size
      obtain rfl : chunk = file.take k := (Except.ok.inj hok).trans hchunk
      rw [Span.size, hroom] at hle hnil
      rw [hk] at h
      split at h
      · rename_i hzero
        cases h
        rw [hnil (by omega) hzero]
        exact .inr (.inl ⟨⟨_, rfl, rfl⟩, by rw [List.length_nil]; omega⟩)
      · have hfile : k ≤ file.length := by
          rw [List.length_take] at hk
          omega
        obtain ⟨hwritten, hbefore⟩ :=
          writeAt_done (by omega : done + (file.take k).length ≤ out.length)
        rw [hk] at hbefore
        rcases ih rest.length (readLoop_length hread) (by omega) (hwritten.trans hout) h rfl with
          ⟨hok', hfits, hout'⟩ | ⟨heof, hfew⟩ | ⟨errno, hne, hmem, herror⟩
        · rw [List.length_drop] at hfits
          have hrest : n - done = k + (n - (done + k)) := by omega
          refine .inl ⟨hok', by omega, ?_⟩
          rw [hout', hbefore, hrest, List.take_add, List.append_assoc]
        · rw [List.length_drop] at hfew
          exact .inr (.inl ⟨heof, by omega⟩)
        · exact .inr (.inr ⟨errno, hne, hsuffix.subset hmem, herror⟩)

private theorem readFullLoop_ends {n done : Nat} {file out : Bytes} {results : List IoResult}
    (hout : out.length = n) (henough : n - done ≤ results.countP (·.Moves)) :
    ∃ outcome, readFullLoop strerror n file done out results = some outcome := by
  induction hlen : results.length using Nat.strong_induction_on
    generalizing done file out results with
  | _ len ih =>
    subst hlen
    rw [readFullLoop]
    by_cases hmore : done < n
    swap
    · rw [if_neg hmore]
      exact ⟨_, rfl⟩
    rw [if_pos hmore]
    have hone : 0 < results.countP (·.Moves) := by omega
    obtain ⟨result, rest, hread, hcount⟩ :=
      @readLoop_ends strerror file (Span.memory (out.drop done)).size results hone
    have hread' : frFdRead strerror file (.memory (out.drop done)) results = some (result, rest) :=
      hread
    split
    · rename_i hnone
      cases hnone.symm.trans hread'
    · exact ⟨_, rfl⟩
    · rename_i chunk rest' hsome
      obtain ⟨rfl, rfl⟩ := Prod.mk.inj (Option.some.inj (hsome.symm.trans hread'))
      split
      · exact ⟨_, rfl⟩
      · obtain ⟨-, ⟨r, hok⟩ | ⟨errno, -, -, herror⟩⟩ := readLoop_cases hread
        swap
        · cases herror
        obtain ⟨k, hchunk, hk, hle, -⟩ := chunk_spec file r (Span.memory (out.drop done)).size
        obtain rfl : chunk = file.take k := (Except.ok.inj hok).trans hchunk
        rw [Span.size, List.length_drop] at hle
        rw [hk]
        have hfits : done + (file.take k).length ≤ out.length := by omega
        refine ih _ (readLoop_length hread) ((writeAt_done hfits).1.trans hout) ?_ rfl
        omega

variable (strerror)

/-- A call returns this, when the kernel's results are the ones of the sequence. -/
def WriteReturns (buf : Span) (results : Nat → IoResult) (outcome : Except FrError Unit × Bytes) :
    Prop := ∃ k, frFdWriteAll strerror buf ((List.range k).map results) = some outcome

/-- A call returns this, when the kernel's results are the ones of the sequence. -/
def ReadReturns (file : Bytes) (buf : Span) (results : Nat → IoResult)
    (outcome : Except FrError Unit × Bytes) : Prop :=
  ∃ k, frFdReadFull strerror file buf ((List.range k).map results) = some outcome

/-- Behind the last interruption every result moves the loop on. -/
private theorem countP_moves {results : Nat → IoResult} {start : Nat}
    (hmoves : ∀ i, start ≤ i → (results i).Moves) (n : Nat) :
    n ≤ ((List.range (start + n)).map results).countP (·.Moves) := by
  induction n with
  | zero => exact Nat.zero_le _
  | succ n ih =>
    rw [← Nat.add_assoc, List.range_succ, List.map_append, List.countP_append, List.map_singleton,
      List.countP_singleton, if_pos (decide_eq_true (hmoves _ (by omega)))]
    omega

variable {strerror} {file : Bytes} {buf : Span} {results : Nat → IoResult}

theorem WriteReturns.given {result : Except FrError Unit} {given : Bytes}
    (h : WriteReturns strerror buf results (result, given)) :
    given <+: buf.bytes?.getD [] ∧ (result = .ok () → buf.bytes? = some given) := by
  obtain ⟨k, hcall⟩ := h
  unfold frFdWriteAll at hcall
  cases hbytes : buf.bytes? with
  | none =>
    rw [hbytes] at hcall
    cases hcall
    exact ⟨List.nil_prefix, nofun⟩
  | some bytes =>
    rw [hbytes] at hcall
    obtain ⟨hpart, hall⟩ := writeLoop_given List.take_zero.symm hcall
    exact ⟨hpart, fun hok => congrArg some (hall hok).symm⟩

private theorem WriteReturns.ok_iff {result : Except FrError Unit} {given : Bytes}
    (h : WriteReturns strerror buf results (result, given)) (hbuf : buf.bytes? ≠ none) :
    result = .ok () ↔ ¬ WriteFails strerror (∃ i, results i = ·) result := by
  obtain ⟨k, hcall⟩ := h
  obtain ⟨bytes, hbytes⟩ := Option.ne_none_iff_exists'.mp hbuf
  rw [frFdWriteAll, hbytes] at hcall
  constructor
  · rintro rfl (⟨_, _, _, herror⟩ | ⟨_, herror⟩) <;> cases herror
  · intro hnot
    refine (writeLoop_cases hcall).resolve_right fun hfails => hnot (hfails.mono fun r hr => ?_)
    obtain ⟨i, -, hi⟩ := List.mem_map.mp hr
    exact ⟨i, hi⟩

/-- The call is stopped by an error of `read` that is no interruption. -/
def ReadFails (strerror : Nat → Bytes) (results : Nat → IoResult) (result : Except FrError Unit) :
    Prop :=
  ∃ i errno, results i = .failed errno ∧ errno ≠ eintr ∧
    result = .error (mapErrno strerror errno (ascii "read"))

private theorem ReadFails.not_eof {result : Except FrError Unit}
    (h : ReadFails strerror results result) :
    ¬ ∃ e, result = .error e ∧ e.code = .eEof := by
  obtain ⟨-, errno, -, -, rfl⟩ := h
  rintro ⟨e, heq, hcode⟩
  obtain rfl := Except.error.inj heq
  rcases mapErrno_code strerror errno (ascii "read") with h | h | h <;> rw [h] at hcode <;>
    cases hcode

theorem ReadReturns.cases {result : Except FrError Unit} {out : Bytes} (hbuf : buf.bytes? ≠ none)
    (h : ReadReturns strerror file buf results (result, out)) :
    (result = .ok () ∧ buf.size ≤ file.length ∧ out = file.take buf.size) ∨
    ((∃ e, result = .error e ∧ e.code = .eEof) ∧ file.length < buf.size) ∨
    ReadFails strerror results result := by
  obtain ⟨k, hcall⟩ := h
  obtain ⟨bytes, hbytes⟩ := Option.ne_none_iff_exists'.mp hbuf
  unfold frFdReadFull at hcall
  rw [hbytes] at hcall
  rcases readFullLoop_cases (Nat.zero_le _) (Span.size_eq hbytes).symm hcall with
    ⟨hok, hfits, hout⟩ | ⟨heof, hfew⟩ | ⟨errno, hne, hmem, herror⟩
  · rw [List.take_zero, List.nil_append, Nat.sub_zero] at hout
    exact .inl ⟨hok, hfits, hout⟩
  · exact .inr (.inl ⟨heof, hfew⟩)
  · obtain ⟨i, -, hi⟩ := List.mem_map.mp hmem
    exact .inr (.inr ⟨i, errno, hi, hne, herror⟩)

private theorem writeReturns_of_moves {start : Nat} (hmoves : ∀ i, start ≤ i → (results i).Moves) :
    ∃ outcome, WriteReturns strerror buf results outcome := by
  unfold WriteReturns frFdWriteAll
  cases buf.bytes? with
  | none => exact ⟨_, 0, rfl⟩
  | some bytes =>
    obtain ⟨outcome, hends⟩ := writeLoop_ends (countP_moves hmoves (bytes.length - 0))
    exact ⟨outcome, _, hends⟩

private theorem readReturns_of_moves {start : Nat} (hmoves : ∀ i, start ≤ i → (results i).Moves) :
    ∃ outcome, ReadReturns strerror file buf results outcome := by
  unfold ReadReturns frFdReadFull
  cases hbytes : buf.bytes? with
  | none => exact ⟨_, 0, rfl⟩
  | some out =>
    obtain ⟨outcome, hends⟩ :=
      readFullLoop_ends (Span.size_eq hbytes).symm (countP_moves hmoves (buf.size - 0))
    exact ⟨outcome, _, hends⟩

/-- Whatever the kernel does: what `fr_fd_write_all` gives to it is the beginning of the buffer, and
all of it if the call returns `FR_OK`, as it does unless a `write` fails or takes nothing. A call of
`fr_fd_read_full` that is not stopped by an error of `read` returns `FR_OK` with the next bytes of
the file in the buffer, or `FR_E_EOF`, which is returned exactly when the file ends first. Both
calls end if there are finitely many interruptions. -/
theorem wholeBufferIo_exact (strerror : Nat → Bytes) (file : Bytes) (buf : Span)
    (results : Nat → IoResult) :
    (∀ result given, WriteReturns strerror buf results (result, given) →
      given <+: buf.bytes?.getD [] ∧ (result = .ok () → buf.bytes? = some given) ∧
      (buf.bytes? ≠ none → (result = .ok () ↔ ¬ WriteFails strerror (∃ i, results i = ·) result))) ∧
    (buf.bytes? ≠ none → ∀ result out, ReadReturns strerror file buf results (result, out) →
      (result = .ok () → buf.size ≤ file.length ∧ out = file.take buf.size) ∧
      ((∃ e, result = .error e ∧ e.code = .eEof) ↔
        file.length < buf.size ∧ ¬ ReadFails strerror results result) ∧
      (result = .ok () ↔ buf.size ≤ file.length ∧ ¬ ReadFails strerror results result)) ∧
    ((∃ start, ∀ i, start ≤ i → results i ≠ .failed eintr) →
      (∃ outcome, WriteReturns strerror buf results outcome) ∧
      ∃ outcome, ReadReturns strerror file buf results outcome) := by
  refine ⟨fun _ _ h => ⟨h.given.1, h.given.2, h.ok_iff⟩, fun hbuf result out h => ?_,
    fun hfinite => ?_⟩
  swap
  · obtain ⟨start, hmoves⟩ := hfinite
    exact ⟨writeReturns_of_moves hmoves, readReturns_of_moves hmoves⟩
  rcases h.cases hbuf with ⟨rfl, hfits, hout⟩ | ⟨⟨e, rfl, hcode⟩, hfew⟩ | hfails
  · have hnofail : ¬ ReadFails strerror results (.ok ()) := by
      rintro ⟨_, _, _, _, herror⟩
      cases herror
    refine ⟨fun _ => ⟨hfits, hout⟩, iff_of_false ?_ fun h => by omega,
      iff_of_true rfl ⟨hfits, hnofail⟩⟩
    rintro ⟨e, herror, -⟩
    cases herror
  · have hnofail : ¬ ReadFails strerror results (.error e) := fun h => h.not_eof ⟨e, rfl, hcode⟩
    exact ⟨nofun, iff_of_true ⟨e, rfl, hcode⟩ ⟨hfew, hnofail⟩, iff_of_false nofun fun h => by omega⟩
  · have hfailed : result ≠ .ok () := by
      obtain ⟨_, _, _, _, rfl⟩ := hfails
      exact nofun
    exact ⟨fun hok => absurd hok hfailed, iff_of_false hfails.not_eof fun h => h.2 hfails,
      iff_of_false hfailed fun h => h.2 hfails⟩

end ForgeRelay
