import ForgeRelay.Core.RawBuffer
import ForgeRelay.Lib.Trace
import Mathlib.Logic.Function.Basic

/-!
# Calls on buffers and readers

Sequences of calls on any number of buffers and readers, with an allocator that may refuse any
request. Over them stand the byte lists that the buffers contain and that the readers have before
them: each call does to them what the list operation does, or fails and changes nothing,
where there is no list operation or no room for what it appends.
-/

namespace ForgeRelay

def frBufReaderSkip (r : FrBufReader) (n : Nat) : Except FrStatus FrBufReader :=
  if frBufReaderRemaining r < n then .error .eRange else .ok { r with pos := r.pos + n }

/-- The buffers and the readers; the memory that a reader borrows is nobody's buffer. -/
structure BufWorld where
  bufs : Nat → RawBuf
  readers : Nat → FrBufReader

/-- What a read hands out. -/
inductive ReadValue
  | nothing
  | bytes (b : Bytes)
  | u8 (v : UInt8)
  | u16 (v : UInt16)
  | u32 (v : UInt32)
  | u64 (v : UInt64)

/-- A call; a null pointer is `none`. -/
inductive BufOp
  | reserve (buf : Option Nat) (additional : Nat)
  | append (buf : Option Nat) (src : Span)
  | appendU8 (buf : Option Nat) (v : UInt8)
  | appendU16be (buf : Option Nat) (v : UInt16)
  | appendU32be (buf : Option Nat) (v : UInt32)
  | appendU64be (buf : Option Nat) (v : UInt64)
  | clear (buf : Option Nat)
  | consume (buf : Option Nat) (n : Nat)
  | move (dst src : Option Nat)
  | destroy (buf : Option Nat)
  | frameEncode (out : Option Nat) (type : UInt8) (flags : UInt16) (reqId : UInt32)
      (payload : Span)
  | readerInit (reader : Option Nat) (data : Bytes)
  | readerRead (reader : Option Nat) (hasDst : Bool) (n : Nat)
  | readerU8 (reader : Option Nat)
  | readerU16be (reader : Option Nat)
  | readerU32be (reader : Option Nat)
  | readerU64be (reader : Option Nat)
  | readerSkip (reader : Option Nat) (n : Nat)
  | readerBytes (reader out : Option Nat) (n : Nat)

namespace BufWorld

/-- All buffers and readers are as their initialisation leaves them. -/
def initial : BufWorld := ⟨fun _ => .init, fun _ => frBufReaderInit []⟩

def setBuf (w : BufWorld) (i : Nat) (buf : RawBuf) : BufWorld :=
  { w with bufs := Function.update w.bufs i buf }

def setReader (w : BufWorld) (i : Nat) (r : FrBufReader) : BufWorld :=
  { w with readers := Function.update w.readers i r }

/-- A function of `fr_buf` on the buffer that is pointed to. -/
def onBuf (w : BufWorld) (buf : Option Nat) (f : RawBuf → FrStatus × RawBuf) :
    FrStatus × ReadValue × BufWorld :=
  match buf with
  | none => (.eArg, .nothing, w)
  | some i => ((f (w.bufs i)).1, .nothing, w.setBuf i (f (w.bufs i)).2)

/-- A function without a status, which does nothing to a null pointer. -/
def change (w : BufWorld) (buf : Option Nat) (f : RawBuf → RawBuf) :
    FrStatus × ReadValue × BufWorld :=
  match buf with
  | none => (.ok, .nothing, w)
  | some i => (.ok, .nothing, w.setBuf i (f (w.bufs i)))

/-- `fr_buf_move`. -/
def move (w : BufWorld) (dst src : Option Nat) : BufWorld :=
  match dst, src with
  | some dst, some src =>
    if dst = src then w else (w.setBuf dst (w.bufs src)).setBuf src .init
  | _, _ => w

/-- A function of `fr_buf_reader` on the reader that is pointed to. -/
def onReader (w : BufWorld) (reader : Option Nat)
    (f : FrBufReader → Except FrStatus (ReadValue × FrBufReader)) :
    FrStatus × ReadValue × BufWorld :=
  match reader with
  | none => (.eArg, .nothing, w)
  | some i =>
    match f (w.readers i) with
    | .ok (value, r) => (.ok, value, w.setReader i r)
    | .error e => (e, .nothing, w)

/-- `fr_buf_reader_bytes`. -/
def readerBytes (heap : Heap) (w : BufWorld) (reader out : Option Nat) (n : Nat) :
    FrStatus × ReadValue × BufWorld :=
  match reader, out with
  | some i, some j =>
    let (st, r, buf) := RawBuf.readerBytes heap (w.readers i) (w.bufs j) n
    (st, .nothing, (w.setReader i r).setBuf j buf)
  | _, _ => (.eArg, .nothing, w)

/-- What a call returns and leaves. -/
def perform (heap : Heap) (w : BufWorld) : BufOp → FrStatus × ReadValue × BufWorld
  | .reserve buf additional => w.onBuf buf (·.reserve heap additional)
  | .append buf src => w.onBuf buf (·.append heap src)
  | .appendU8 buf v => w.onBuf buf (·.append heap (.memory [v]))
  | .appendU16be buf v => w.onBuf buf (·.append heap (.memory (frStoreBe16 v)))
  | .appendU32be buf v => w.onBuf buf (·.append heap (.memory (frStoreBe32 v)))
  | .appendU64be buf v => w.onBuf buf (·.append heap (.memory (frStoreBe64 v)))
  | .clear buf => w.change buf (·.clear)
  | .consume buf n => w.onBuf buf (·.consume n)
  | .move dst src => (.ok, .nothing, w.move dst src)
  | .destroy buf => w.change buf fun _ => .init
  | .frameEncode out type flags reqId payload =>
    w.onBuf out (·.frameEncode heap type flags reqId payload)
  | .readerInit reader data =>
    match reader with
    | none => (.ok, .nothing, w)
    | some i => (.ok, .nothing, w.setReader i (frBufReaderInit data))
  | .readerRead reader hasDst n =>
    w.onReader reader fun r =>
      if hasDst = false ∧ n ≠ 0 then .error .eArg
      else (frBufReaderRead r n).map fun (raw, r) => (.bytes raw, r)
  | .readerU8 reader => w.onReader reader fun r => (frBufReaderU8 r).map fun (v, r) => (.u8 v, r)
  | .readerU16be reader =>
    w.onReader reader fun r => (frBufReaderU16be r).map fun (v, r) => (.u16 v, r)
  | .readerU32be reader =>
    w.onReader reader fun r => (frBufReaderU32be r).map fun (v, r) => (.u32 v, r)
  | .readerU64be reader =>
    w.onReader reader fun r => (frBufReaderU64be r).map fun (v, r) => (.u64 v, r)
  | .readerSkip reader n =>
    w.onReader reader fun r => (frBufReaderSkip r n).map fun r => (.nothing, r)
  | .readerBytes reader out n => w.readerBytes heap reader out n

/-- What holds between any two calls. -/
structure Valid (w : BufWorld) : Prop where
  bufs : ∀ i, (w.bufs i).Valid
  readers : ∀ i, (w.readers i).pos ≤ (w.readers i).data.length

end BufWorld

/-- The contents of the buffers, and what the readers have before them. -/
@[ext] structure BufLists where
  contents : Nat → Bytes
  unread : Nat → Bytes

namespace BufLists

/-- Nothing in any buffer and before any reader. -/
def empty : BufLists := ⟨fun _ => [], fun _ => []⟩

def setContent (s : BufLists) (i : Nat) (content : Bytes) : BufLists :=
  { s with contents := Function.update s.contents i content }

def setUnread (s : BufLists) (i : Nat) (rest : Bytes) : BufLists :=
  { s with unread := Function.update s.unread i rest }

/-- An operation on the content of a buffer. -/
def onContent (s : BufLists) (buf : Option Nat) (f : Bytes → Option Bytes) :
    Option (ReadValue × BufLists) :=
  buf.bind fun i => (f (s.contents i)).map fun content => (.nothing, s.setContent i content)

/-- The first bytes before a reader are taken, and something is made of them. -/
def takeUnread (s : BufLists) (reader : Option Nat) (n : Nat) (value : Bytes → ReadValue) :
    Option (ReadValue × BufLists) :=
  reader.bind fun i =>
    if n ≤ (s.unread i).length then
      some (value ((s.unread i).take n), s.setUnread i ((s.unread i).drop n))
    else none

/-- The length of a buffer's content with so many bytes more. -/
def grown (s : BufLists) (buf : Option Nat) (n : Nat) : Option Nat :=
  buf.map fun i => (s.contents i).length + n

end BufLists

/-- For how many bytes a call needs room; `none` for one that makes no content longer. -/
def BufOp.needed (s : BufLists) : BufOp → Option Nat
  | .reserve buf additional => s.grown buf additional
  | .append buf src => s.grown buf src.size
  | .appendU8 buf _ => s.grown buf 1
  | .appendU16be buf _ => s.grown buf 2
  | .appendU32be buf _ => s.grown buf 4
  | .appendU64be buf _ => s.grown buf 8
  | .frameEncode out _ _ _ payload => s.grown out (frFrameHeaderSize + payload.size)
  | .readerBytes _ out n => s.grown out n
  | _ => none

/-- The list operation of a call, and what it hands out; `none` where there is none, since the call
asks for more than there is, or has an argument that is not allowed. -/
def BufOp.apply (s : BufLists) : BufOp → Option (ReadValue × BufLists)
  | .reserve buf _ => s.onContent buf some
  | .append buf src => s.onContent buf fun content => src.bytes?.map (content ++ ·)
  | .appendU8 buf v => s.onContent buf fun content => some (content ++ [v])
  | .appendU16be buf v => s.onContent buf fun content => some (content ++ frStoreBe16 v)
  | .appendU32be buf v => s.onContent buf fun content => some (content ++ frStoreBe32 v)
  | .appendU64be buf v => s.onContent buf fun content => some (content ++ frStoreBe64 v)
  | .clear buf | .destroy buf =>
    match buf with
    | none => some (.nothing, s)
    | some i => some (.nothing, s.setContent i [])
  | .consume buf n =>
    s.onContent buf fun content => if n ≤ content.length then some (content.drop n) else none
  | .move dst src =>
    match dst, src with
    | some dst, some src =>
      if dst = src then some (.nothing, s)
      else some (.nothing, (s.setContent dst (s.contents src)).setContent src [])
    | _, _ => some (.nothing, s)
  | .frameEncode out type flags reqId payload =>
    s.onContent out fun content =>
      (RawBuf.frameBytes type flags reqId payload).map (content ++ ·)
  | .readerInit reader data =>
    match reader with
    | none => some (.nothing, s)
    | some i => some (.nothing, s.setUnread i data)
  | .readerRead reader hasDst n =>
    if hasDst = false ∧ n ≠ 0 then none else s.takeUnread reader n .bytes
  | .readerU8 reader => s.takeUnread reader 1 fun raw => .u8 (raw.headD 0)
  | .readerU16be reader => s.takeUnread reader 2 fun raw => .u16 (frLoadBe16 raw)
  | .readerU32be reader => s.takeUnread reader 4 fun raw => .u32 (frLoadBe32 raw)
  | .readerU64be reader => s.takeUnread reader 8 fun raw => .u64 (frLoadBe64 raw)
  | .readerSkip reader n => s.takeUnread reader n fun _ => .nothing
  | .readerBytes reader out n =>
    reader.bind fun i => out.bind fun j =>
      if n ≤ (s.unread i).length then
        some (.nothing, (s.setUnread i ((s.unread i).drop n)).setContent j
          (s.contents j ++ (s.unread i).take n))
      else none

namespace BufWorld

variable {w : BufWorld} {buf reader : Option Nat} {heap : Heap}

/-- What the buffers contain and the readers have before them. -/
def lists (w : BufWorld) : BufLists :=
  ⟨fun i => (w.bufs i).content, fun i => (w.readers i).rest⟩

/-- What comes of a call that is to do this and needs room for so many bytes: it does, or it changes
nothing, because there is no list operation, or because there is no room. -/
inductive Refines (heap : Heap) (w : BufWorld) (needed : Option Nat) :
    Option (ReadValue × BufLists) → FrStatus × ReadValue × BufWorld → Prop
  | done {value : ReadValue} {after : BufWorld} {lists : BufLists} (hvalid : after.Valid)
      (hlists : after.lists = lists) :
      Refines heap w needed (some (value, lists)) (.ok, value, after)
  | refused {st : FrStatus} (hst : st = .eArg ∨ st = .eRange) :
      Refines heap w needed none (st, .nothing, w)
  | noRoom {wanted : ReadValue × BufLists} {st : FrStatus} {n : Nat} (hneeded : needed = some n)
      (hwhy : RawBuf.NoRoom heap n st) :
      Refines heap w needed (some wanted) (st, .nothing, w)

private theorem setBuf_self (w : BufWorld) (i : Nat) : w.setBuf i (w.bufs i) = w := by
  rw [setBuf, Function.update_eq_self]

private theorem setReader_self (w : BufWorld) (i : Nat) : w.setReader i (w.readers i) = w := by
  rw [setReader, Function.update_eq_self]

@[simp] theorem setBuf_bufs (w : BufWorld) (i : Nat) (b : RawBuf) :
    (w.setBuf i b).bufs = Function.update w.bufs i b := rfl

@[simp] theorem setReader_readers (w : BufWorld) (i : Nat) (r : FrBufReader) :
    (w.setReader i r).readers = Function.update w.readers i r := rfl

private theorem Valid.setBuf (hvalid : w.Valid) (i : Nat) {b : RawBuf} (hb : b.Valid) :
    (w.setBuf i b).Valid := by
  refine ⟨fun j => ?_, hvalid.readers⟩
  by_cases hj : j = i
  · subst j
    rwa [setBuf_bufs, Function.update_self]
  · rw [setBuf_bufs, Function.update_of_ne hj]
    exact hvalid.bufs j

private theorem Valid.setReader (hvalid : w.Valid) (i : Nat) {r : FrBufReader}
    (hr : r.pos ≤ r.data.length) : (w.setReader i r).Valid := by
  refine ⟨hvalid.bufs, fun j => ?_⟩
  by_cases hj : j = i
  · subst j
    rwa [setReader_readers, Function.update_self]
  · rw [setReader_readers, Function.update_of_ne hj]
    exact hvalid.readers j

private theorem lists_setBuf (w : BufWorld) (i : Nat) (b : RawBuf) :
    (w.setBuf i b).lists = w.lists.setContent i b.content := by
  refine BufLists.ext (funext fun j => ?_) rfl
  by_cases hj : j = i
  · subst j
    simp [lists, setBuf, BufLists.setContent]
  · simp [lists, setBuf, BufLists.setContent, hj]

private theorem lists_setReader (w : BufWorld) (i : Nat) (r : FrBufReader) :
    (w.setReader i r).lists = w.lists.setUnread i r.rest := by
  refine BufLists.ext rfl (funext fun j => ?_)
  by_cases hj : j = i
  · subst j
    simp [lists, setReader, BufLists.setUnread]
  · simp [lists, setReader, BufLists.setUnread, hj]

private theorem onBuf_refines {f : RawBuf → FrStatus × RawBuf} {wanted : Bytes → Option Bytes}
    {more needed : Option Nat} (hvalid : w.Valid)
    (hf : ∀ b : RawBuf, b.Valid → RawBuf.Results heap b more (wanted b.content) (f b))
    (hneeded : needed = more.bind (w.lists.grown buf)) :
    Refines heap w needed (w.lists.onContent buf wanted) (w.onBuf buf f) := by
  subst hneeded
  cases buf with
  | none => exact .refused (.inl rfl)
  | some i =>
    have hresults := hf (w.bufs i) (hvalid.bufs i)
    have hcontents : w.lists.contents i = (w.bufs i).content := rfl
    rw [BufLists.onContent, Option.bind_some, onBuf, hcontents]
    generalize wanted (w.bufs i).content = content at hresults ⊢
    generalize f (w.bufs i) = result at hresults ⊢
    cases hresults with
    | done hb hcontent => exact .done (hvalid.setBuf i hb) (by rw [lists_setBuf, hcontent])
    | refused hst =>
      rw [setBuf_self]
      exact .refused hst
    | noRoom hmore hwhy =>
      rw [setBuf_self, hmore]
      exact .noRoom rfl hwhy

private theorem change_refines {f : RawBuf → RawBuf} (hvalid : w.Valid)
    (hf : ∀ b : RawBuf, b.Valid → (f b).Valid ∧ (f b).content = []) :
    Refines heap w none (match buf with
      | none => some (.nothing, w.lists)
      | some i => some (.nothing, w.lists.setContent i [])) (w.change buf f) := by
  cases buf with
  | none => exact .done hvalid rfl
  | some i =>
    obtain ⟨hb, hcontent⟩ := hf (w.bufs i) (hvalid.bufs i)
    exact .done (hvalid.setBuf i hb) (by rw [lists_setBuf, hcontent])

private theorem move_refines (hvalid : w.Valid) (dst src : Option Nat) :
    Refines heap w none (BufOp.apply w.lists (.move dst src)) (.ok, .nothing, w.move dst src) := by
  cases dst with
  | none => exact .done hvalid rfl
  | some i =>
    cases src with
    | none => exact .done hvalid rfl
    | some j =>
      rw [BufWorld.move, BufOp.apply]
      by_cases hsame : i = j
      · rw [if_pos hsame, if_pos hsame]
        exact .done hvalid rfl
      · rw [if_neg hsame, if_neg hsame]
        refine .done ((hvalid.setBuf i (hvalid.bufs j)).setBuf j RawBuf.init_valid) ?_
        rw [lists_setBuf, lists_setBuf]
        rfl

private theorem frBufReaderRead_eq (r : FrBufReader) (n : Nat) :
    frBufReaderRead r n =
      if n ≤ r.rest.length then .ok (r.rest.take n, { r with pos := r.pos + n })
      else .error .eRange := by
  have hrest : r.rest.length = frBufReaderRemaining r := List.length_drop
  rw [frBufReaderRead, hrest]
  by_cases hfew : frBufReaderRemaining r < n
  · rw [if_pos hfew, if_neg (Nat.not_le.mpr hfew)]
  · rw [if_neg hfew, if_pos (Nat.not_lt.mp hfew)]
    rfl

private theorem rest_moved (r : FrBufReader) (n : Nat) :
    ({ r with pos := r.pos + n } : FrBufReader).rest = r.rest.drop n := List.drop_drop.symm

private theorem pos_moved {r : FrBufReader} {n : Nat} (hpos : r.pos ≤ r.data.length)
    (hn : n ≤ r.rest.length) : r.pos + n ≤ r.data.length := by
  rw [FrBufReader.rest, List.length_drop] at hn
  omega

private theorem onReader_refines {f : FrBufReader → Except FrStatus (ReadValue × FrBufReader)}
    {n : Nat} {value : Bytes → ReadValue} (hvalid : w.Valid)
    (hf : ∀ r, f r = (frBufReaderRead r n).map fun read => (value read.1, read.2)) :
    Refines heap w none (w.lists.takeUnread reader n value) (w.onReader reader f) := by
  cases reader with
  | none => exact .refused (.inl rfl)
  | some i =>
    have hunread : w.lists.unread i = (w.readers i).rest := rfl
    rw [onReader, hf, frBufReaderRead_eq, BufLists.takeUnread, Option.bind_some, hunread]
    by_cases hn : n ≤ (w.readers i).rest.length
    · rw [if_pos hn, if_pos hn]
      refine .done (hvalid.setReader i (pos_moved (hvalid.readers i) hn)) ?_
      rw [lists_setReader, rest_moved]
    · rw [if_neg hn, if_neg hn]
      exact .refused (.inr rfl)

private theorem skip_eq_read (r : FrBufReader) (n : Nat) :
    (frBufReaderSkip r n).map (fun r => (ReadValue.nothing, r)) =
      (frBufReaderRead r n).map fun read => (.nothing, read.2) := by
  unfold frBufReaderSkip frBufReaderRead
  split <;> rfl

private theorem readerBytes_refines (hvalid : w.Valid) (reader out : Option Nat) (n : Nat) :
    Refines heap w (w.lists.grown out n) (BufOp.apply w.lists (.readerBytes reader out n))
      (w.readerBytes heap reader out n) := by
  cases reader with
  | none => exact .refused (.inl rfl)
  | some i =>
    cases out with
    | none => exact .refused (.inl rfl)
    | some j =>
      have hunread : w.lists.unread i = (w.readers i).rest := rfl
      have hcases := RawBuf.readerBytes_cases heap (hvalid.bufs j) (w.readers i) n
      rw [readerBytes, BufOp.apply, Option.bind_some, Option.bind_some, hunread]
      generalize RawBuf.readerBytes heap (w.readers i) (w.bufs j) n = result at hcases ⊢
      obtain ⟨st, r, b⟩ := result
      rcases hcases with ⟨rfl, hn, rfl, hb, hcontent⟩ | ⟨hkept, hwhy⟩
      · rw [if_pos hn]
        refine .done ((hvalid.setReader i (pos_moved (hvalid.readers i) hn)).setBuf j hb) ?_
        rw [lists_setBuf, lists_setReader, rest_moved, hcontent]
        rfl
      · cases hkept
        dsimp only at hwhy ⊢
        rw [setReader_self, setBuf_self]
        rcases hwhy with ⟨hshort, rfl⟩ | ⟨hn, hroom⟩
        · rw [if_neg (Nat.not_le.mpr hshort)]
          exact .refused (.inr rfl)
        · rw [if_pos hn]
          exact .noRoom rfl hroom

private theorem perform_refines (heap : Heap) (hvalid : w.Valid) (op : BufOp) :
    Refines heap w (op.needed w.lists) (op.apply w.lists) (w.perform heap op) := by
  unfold perform BufOp.apply BufOp.needed
  cases op with
  | reserve buf additional =>
    exact onBuf_refines hvalid (fun b hb => RawBuf.reserve_results heap hb additional) rfl
  | append buf src =>
    exact onBuf_refines hvalid (fun b hb => RawBuf.append_results heap hb src) rfl
  | appendU8 buf v =>
    exact onBuf_refines hvalid (fun b hb => RawBuf.append_results heap hb (.memory [v])) rfl
  | appendU16be buf v =>
    exact onBuf_refines hvalid
      (fun b hb => RawBuf.append_results heap hb (.memory (frStoreBe16 v))) rfl
  | appendU32be buf v =>
    exact onBuf_refines hvalid
      (fun b hb => RawBuf.append_results heap hb (.memory (frStoreBe32 v))) rfl
  | appendU64be buf v =>
    exact onBuf_refines hvalid
      (fun b hb => RawBuf.append_results heap hb (.memory (frStoreBe64 v))) rfl
  | clear buf => exact change_refines hvalid fun b hb => ⟨RawBuf.clear_valid hb, b.clear_content⟩
  | consume buf n =>
    exact onBuf_refines hvalid (fun b hb => RawBuf.consume_results heap hb n) rfl
  | move dst src => exact move_refines hvalid dst src
  | destroy buf => exact change_refines hvalid fun b _ => ⟨RawBuf.init_valid, rfl⟩
  | frameEncode out type flags reqId payload =>
    exact onBuf_refines hvalid
      (fun b hb => RawBuf.frameEncode_results heap hb type flags reqId payload) rfl
  | readerInit reader data =>
    cases reader with
    | none => exact .done hvalid rfl
    | some i =>
      refine .done (hvalid.setReader i (Nat.zero_le _)) ?_
      rw [lists_setReader]
      rfl
  | readerRead reader hasDst n =>
    dsimp only
    by_cases hdst : hasDst = false ∧ n ≠ 0
    · rw [if_pos hdst]
      cases reader <;> simp only [onReader, if_pos hdst] <;> exact .refused (.inl rfl)
    · rw [if_neg hdst]
      refine onReader_refines hvalid fun r => ?_
      rw [if_neg hdst]
  | readerU8 reader =>
    refine onReader_refines hvalid fun r => ?_
    rw [frBufReaderU8]
    cases frBufReaderRead r 1 <;> rfl
  | readerU16be reader =>
    refine onReader_refines hvalid fun r => ?_
    rw [frBufReaderU16be]
    cases frBufReaderRead r 2 <;> rfl
  | readerU32be reader =>
    refine onReader_refines hvalid fun r => ?_
    rw [frBufReaderU32be]
    cases frBufReaderRead r 4 <;> rfl
  | readerU64be reader =>
    refine onReader_refines hvalid fun r => ?_
    rw [frBufReaderU64be]
    cases frBufReaderRead r 8 <;> rfl
  | readerSkip reader n => exact onReader_refines hvalid fun r => skip_eq_read r n
  | readerBytes reader out n => exact readerBytes_refines hvalid reader out n

private theorem initial_valid :
    initial.Valid := ⟨fun _ => RawBuf.init_valid, fun _ => Nat.le_refl _⟩

end BufWorld

/-- A call with what the allocator answers during it, and what it returns. -/
structure BufCall where
  op : BufOp
  heap : Heap
  status : FrStatus
  value : ReadValue

/-- The call as the code makes it. -/
def BufStep (w : BufWorld) (call : BufCall) (w' : BufWorld) : Prop :=
  w.perform call.heap call.op = (call.status, call.value, w')

/-- The call on byte lists: the list operation; or nothing, because there is none, or because the
call needs more room than the allocator gives it or than there can be. -/
inductive ListStep (s : BufLists) (call : BufCall) : BufLists → Prop
  | done {s' : BufLists} (hok : call.status = .ok)
      (happly : call.op.apply s = some (call.value, s')) : ListStep s call s'
  | refused (hnone : call.op.apply s = none)
      (hstatus : call.status = .eArg ∨ call.status = .eRange) : ListStep s call s
  | noRoom {wanted : ReadValue × BufLists} {needed : Nat} (hwanted : call.op.apply s = some wanted)
      (hneeded : call.op.needed s = some needed)
      (hwhy : RawBuf.NoRoom call.heap needed call.status) : ListStep s call s

private theorem ListStep.of_ok {s s' : BufLists} {call : BufCall} (h : ListStep s call s')
    (hok : call.status = .ok) : call.op.apply s = some (call.value, s') := by
  cases h with
  | done _ happly => exact happly
  | refused _ hstatus => rcases hstatus with h | h <;> cases hok.symm.trans h
  | noRoom _ _ hwhy => rcases hwhy.status with h | h <;> cases hok.symm.trans h

private theorem ListStep.of_failed {s s' : BufLists} {call : BufCall} (h : ListStep s call s')
    (hfailed : call.status ≠ .ok) : s' = s := by
  cases h with
  | done hok _ => exact absurd hok hfailed
  | refused => rfl
  | noRoom => rfl

variable {w w' : BufWorld} {calls : List BufCall}

private theorem bufStep_refines {call : BufCall} (hvalid : w.Valid) (hstep : BufStep w call w') :
    w'.Valid ∧ ListStep w.lists call w'.lists ∧ (call.status ≠ .ok → w' = w) := by
  obtain ⟨op, heap, status, value⟩ := call
  have hrefines := w.perform_refines heap hvalid op
  rw [BufStep] at hstep
  rw [hstep] at hrefines
  generalize hwanted : op.apply w.lists = wanted at hrefines
  cases hrefines with
  | done hvalid' hlists =>
    subst hlists
    exact ⟨hvalid', .done rfl hwanted, fun hfailed => absurd rfl hfailed⟩
  | refused hst => exact ⟨hvalid, .refused hwanted hst, fun _ => rfl⟩
  | noRoom hneeded hwhy => exact ⟨hvalid, .noRoom hwanted hneeded hwhy, fun _ => rfl⟩

private theorem bufRun_refines (hrun : Trace.Run BufStep w calls w') (hvalid : w.Valid) :
    w'.Valid ∧ Trace.Run ListStep w.lists calls w'.lists := by
  induction hrun with
  | nil w => exact ⟨hvalid, .nil _⟩
  | cons head _ ih =>
    obtain ⟨hmid, hlist, -⟩ := bufStep_refines hvalid head
    obtain ⟨hlast, hrest⟩ := ih hmid
    exact ⟨hlast, .cons hlist hrest⟩

/-- Whatever is called and whatever the allocator refuses, the content of every buffer lies within
its allocation of no or 64 times a power of two bytes, and no reader is beyond its end; the
buffers contain and the readers have before them what the list operations make of empty lists,
where a call is left out only if it has no list operation or no room for what it appends; the next
reservation's loop ends; and the next call, if it returns an error, changes nothing. -/
theorem bufOps_refine (hrun : Trace.Run BufStep .initial calls w) :
    (∀ i, (w.bufs i).len ≤ (w.bufs i).cap ∧
      ((w.bufs i).cap = 0 ∨ ∃ k, (w.bufs i).cap = 64 * 2^k)) ∧
    (∀ i, (w.readers i).pos ≤ (w.readers i).data.length) ∧
    Trace.Run ListStep .empty calls w.lists ∧
    (∀ i needed, GrowLoop needed (w.bufs i).startCap (growCap 65 needed (w.bufs i).startCap)) ∧
    ∀ call w', BufStep w call w' → call.status ≠ .ok → w' = w := by
  obtain ⟨hvalid, hlists⟩ := bufRun_refines hrun BufWorld.initial_valid
  refine ⟨fun i => ⟨(hvalid.bufs i).within, (hvalid.bufs i).shape⟩, hvalid.readers, hlists,
    fun i needed => (w.bufs i).growLoop_startCap needed, fun call w' hstep => ?_⟩
  exact (bufStep_refines hvalid hstep).2.2

/-- Three bytes are appended to a buffer, the allocator refuses 64 more, and one is consumed. -/
theorem bufOps_refine_consume :
    let heap : Heap := fun size => some (Vector.replicate size 0)
    let append : BufCall := ⟨.append (some 0) (.memory [1, 2, 3]), heap, .ok, .nothing⟩
    let refused : BufCall :=
      ⟨.append (some 0) (.memory (List.replicate 64 0)), fun _ => none, .eNomem, .nothing⟩
    let consume : BufCall := ⟨.consume (some 0) 1, heap, .ok, .nothing⟩
    ∃ w, Trace.Run BufStep .initial [append, refused, consume] w ∧
      (w.bufs 0).content = [2, 3] ∧ (w.bufs 0).len ≤ (w.bufs 0).cap := by
  intro heap append refused consume
  have hrun : Trace.Run BufStep .initial [append, refused, consume]
      (((BufWorld.initial.perform heap append.op).2.2.perform refused.heap
        refused.op).2.2.perform heap consume.op).2.2 :=
    .cons rfl (.cons rfl (.single rfl))
  obtain ⟨hbufs, -, hlists, -, -⟩ := bufOps_refine hrun
  refine ⟨_, hrun, ?_, (hbufs 0).1⟩
  generalize BufWorld.perform _ _ _ = result at hlists ⊢
  obtain ⟨st, value, w⟩ := result
  cases hlists with
  | cons happend hrest =>
    cases hrest with
    | cons hrefused hlast =>
      cases hlast with
      | cons hconsume hnil =>
        cases hnil
        have happended := happend.of_ok rfl
        have hkept := hrefused.of_failed (by decide)
        have hconsumed := hconsume.of_ok rfl
        rw [hkept] at hconsumed
        obtain ⟨-, rfl⟩ := Prod.mk.inj (Option.some.inj happended)
        obtain ⟨-, hlast⟩ := Prod.mk.inj (Option.some.inj hconsumed)
        exact (congrFun (congrArg BufLists.contents hlast) 0).symm

end ForgeRelay
