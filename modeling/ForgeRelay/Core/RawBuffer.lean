import ForgeRelay.Core.FrameHeader

/-!
# Buffers in memory

`fr_buf` with the allocation behind it: `realloc` and the copies work on a block of `cap` bytes, of
which the first `len` are the content. Each call appends or removes what it should, or fails and
leaves the buffer as it is.
-/

namespace ForgeRelay

/-- What the allocator answers to a request for so many bytes: nothing, or a block with whatever
stood there. -/
abbrev Heap := (size : Nat) → Option (Vector UInt8 size)

/-- `realloc`; the old bytes are kept at the front. -/
def realloc (heap : Heap) (old : Bytes) (size : Nat) : Option Bytes :=
  (heap size).map fun block => writeAt block.toList 0 (old.take size)

/-- `fr_buf`; `data` is the allocation, and without one the capacity is zero. -/
structure RawBuf where
  data : Bytes
  len : Nat
  cap : Nat

/-- A pointer to bytes, with their number. -/
inductive Span
  | null (n : Nat)
  | memory (bytes : Bytes)
  deriving DecidableEq

/-- The number of the bytes. -/
def Span.size : Span → Nat
  | .null n => n
  | .memory bytes => bytes.length

/-- The bytes, where there are so many of them. -/
def Span.bytes? : Span → Option Bytes
  | .null n => if n = 0 then some [] else none
  | .memory bytes => some bytes

theorem Span.size_eq {src : Span} {bytes : Bytes} (h : src.bytes? = some bytes) :
    src.size = bytes.length := by
  cases src with
  | null n =>
    by_cases hn : n = 0
    · cases (if_pos hn).symm.trans h
      exact hn
    · cases (if_neg hn).symm.trans h
  | memory bytes' =>
    cases h
    rfl

namespace RawBuf

/-- `fr_buf_init`. -/
def init : RawBuf := ⟨[], 0, 0⟩

/-- The capacity from which the loop of `fr_buf_reserve` starts. -/
def startCap (buf : RawBuf) : Nat := if buf.cap ≠ 0 then buf.cap else 64

/-- `fr_buf_reserve`. -/
def reserve (heap : Heap) (buf : RawBuf) (additional : Nat) : FrStatus × RawBuf :=
  match frCheckedAddSize buf.len additional with
  | none => (.eOverflow, buf)
  | some needed =>
    if needed ≤ buf.cap then (.ok, buf)
    else
      match growCap 65 needed buf.startCap with
      | none => (.eOverflow, buf)
      | some newCap =>
        match realloc heap buf.data newCap with
        | none => (.eNomem, buf)
        | some grown => (.ok, { buf with data := grown, cap := newCap })

/-- The copy behind the content that follows a reservation. -/
def push (buf : RawBuf) (src : Bytes) : RawBuf :=
  { buf with
    data := if src.length ≠ 0 then writeAt buf.data buf.len src else buf.data
    len := buf.len + src.length }

/-- `fr_buf_append`. -/
def append (heap : Heap) (buf : RawBuf) (src : Span) : FrStatus × RawBuf :=
  match src.bytes? with
  | none => (.eArg, buf)
  | some bytes =>
    match buf.reserve heap bytes.length with
    | (.ok, buf) => (.ok, buf.push bytes)
    | (st, buf) => (st, buf)

/-- `fr_buf_clear`. -/
def clear (buf : RawBuf) : RawBuf := { buf with len := 0 }

/-- `fr_buf_consume`. -/
def consume (buf : RawBuf) (n : Nat) : FrStatus × RawBuf :=
  if buf.len < n then (.eRange, buf)
  else if n ≠ 0 then
    (.ok, { buf with
      data := writeAt buf.data 0 ((buf.data.drop n).take (buf.len - n))
      len := buf.len - n })
  else (.ok, buf)

/-- `fr_frame_encode`. -/
def frameEncode (heap : Heap) (out : RawBuf) (type : UInt8) (flags : UInt16) (reqId : UInt32)
    (payload : Span) : FrStatus × RawBuf :=
  if !frMsgTypeValid type then (.eArg, out)
  else if flags ≠ 0 then (.eArg, out)
  else if reqId = 0 then (.eArg, out)
  else if payload.bytes? = none then (.eArg, out)
  else if frFrameMaxPayload < payload.size then (.eRange, out)
  else
    let header := frameHeader type flags reqId (UInt32.ofNat payload.size)
    match frCheckedAddSize frFrameHeaderSize payload.size with
    | none => (.eOverflow, out)
    | some total =>
      match out.reserve heap total with
      | (.ok, out) =>
        match out.append heap (.memory header) with
        | (.ok, out) => out.append heap payload
        | (st, out) => (st, out)
      | (st, out) => (st, out)

/-- `fr_buf_reader_bytes`. -/
def readerBytes (heap : Heap) (r : FrBufReader) (out : RawBuf) (n : Nat) :
    FrStatus × FrBufReader × RawBuf :=
  if frBufReaderRemaining r < n then (.eRange, r, out)
  else
    match out.reserve heap n with
    | (.ok, out) => (.ok, { r with pos := r.pos + n }, out.push ((r.data.drop r.pos).take n))
    | (st, out) => (st, r, out)

/-- The bytes of the buffer. -/
def content (buf : RawBuf) : Bytes := buf.data.take buf.len

/-- What holds of a buffer between any two calls. -/
structure Valid (buf : RawBuf) : Prop where
  allocated : buf.data.length = buf.cap
  within : buf.len ≤ buf.cap
  shape : buf.cap = 0 ∨ ∃ k, buf.cap = 64 * 2^k
  limit : buf.cap < sizeLimit

/-- Why a call has no room for so many bytes: the allocator refuses the least capacity that would be
enough, or this capacity is above `SIZE_MAX`. -/
def NoRoom (heap : Heap) (needed : Nat) (st : FrStatus) : Prop :=
  (st = .eNomem ∧ ∃ k, needed ≤ 64 * 2^k ∧ (∀ j < k, 64 * 2^j < needed) ∧
    heap (64 * 2^k) = none) ∨
  (st = .eOverflow ∧ ∀ k, needed ≤ 64 * 2^k → sizeLimit ≤ 64 * 2^k)

/-- What comes of a call that is to make this of the content and needs room for `more` bytes behind
it: it does, and the buffer stays valid; or it leaves the buffer as it is, because nothing is to be
made of the content, or because there is no room. A call that needs none does what it is to do. -/
inductive Results (heap : Heap) (buf : RawBuf) (more : Option Nat) :
    Option Bytes → FrStatus × RawBuf → Prop
  | done {content : Bytes} {after : RawBuf} (hvalid : after.Valid)
      (hcontent : after.content = content) : Results heap buf more (some content) (.ok, after)
  | refused {st : FrStatus} (hst : st = .eArg ∨ st = .eRange) :
      Results heap buf more none (st, buf)
  | noRoom {content : Bytes} {st : FrStatus} {n : Nat} (hmore : more = some n)
      (hwhy : NoRoom heap (buf.content.length + n) st) :
      Results heap buf more (some content) (st, buf)

end RawBuf

/-- The loop of `fr_buf_reserve`, without a bound on its iterations: from this capacity it ends
with a capacity or with an overflow. -/
inductive GrowLoop (needed : Nat) : Nat → Option Nat → Prop
  | enough {cap : Nat} (h : needed ≤ cap) : GrowLoop needed cap (some cap)
  | overflow {cap : Nat} (h : cap < needed) (hdouble : sizeLimit ≤ cap * 2) :
      GrowLoop needed cap none
  | double {cap : Nat} {result : Option Nat} (h : cap < needed) (hdouble : cap * 2 < sizeLimit)
      (hrest : GrowLoop needed (cap * 2) result) : GrowLoop needed cap result

/-- The loop overflows only where no capacity is enough. -/
private theorem GrowLoop.overflows {needed cap : Nat} {result : Option Nat}
    (h : GrowLoop needed cap result) (hnone : result = none) {i : Nat} (hshape : cap = 64 * 2^i)
    {k : Nat} (hk : needed ≤ 64 * 2^k) : sizeLimit ≤ 64 * 2^k := by
  induction h generalizing i with
  | enough h => cases hnone
  | overflow hlt hdouble =>
    have hpow : 64 * 2^i < 64 * 2^k := by omega
    have hik : i < k := (Nat.pow_lt_pow_iff_right (by omega : 1 < 2)).mp (by omega)
    have hmono : 2^(i + 1) ≤ 2^k := Nat.pow_le_pow_right (by omega) hik
    rw [Nat.pow_succ] at hmono
    omega
  | double hlt hdouble _ ih => exact ih hnone (by rw [hshape, Nat.mul_assoc, ← Nat.pow_succ])

/-- The bound on the iterations is never what ends the loop. -/
private theorem growLoop_growCap {fuel needed cap : Nat} (hfuel : sizeLimit ≤ cap * 2^fuel) :
    GrowLoop needed cap (growCap (fuel + 1) needed cap) := by
  induction fuel generalizing cap with
  | zero =>
    rw [Nat.pow_zero, Nat.mul_one] at hfuel
    rw [growCap]
    by_cases hlt : cap < needed
    · rw [if_pos hlt, if_neg (by omega)]
      exact .overflow hlt (by omega)
    · rw [if_neg hlt]
      exact .enough (Nat.not_lt.mp hlt)
  | succ fuel ih =>
    rw [growCap]
    by_cases hlt : cap < needed
    · by_cases hdouble : cap * 2 < sizeLimit
      · rw [if_pos hlt, if_pos hdouble]
        refine .double hlt hdouble (ih ?_)
        rwa [Nat.mul_assoc, ← Nat.pow_succ']
      · rw [if_pos hlt, if_neg hdouble]
        exact .overflow hlt (Nat.not_lt.mp hdouble)
    · rw [if_neg hlt]
      exact .enough (Nat.not_lt.mp hlt)

namespace RawBuf

variable {heap : Heap} {buf : RawBuf} {bytes : Bytes}

private theorem startCap_pos (buf : RawBuf) : 0 < buf.startCap := by
  unfold startCap
  split <;> omega

/-- The loop of `fr_buf_reserve` ends, whatever is reserved. -/
theorem growLoop_startCap (buf : RawBuf) (needed : Nat) :
    GrowLoop needed buf.startCap (growCap 65 needed buf.startCap) :=
  growLoop_growCap (Nat.le_mul_of_pos_left _ buf.startCap_pos)

private theorem Valid.startCap_shape (hvalid : buf.Valid) : ∃ k, buf.startCap = 64 * 2^k := by
  unfold startCap
  split
  · exact hvalid.shape.resolve_left (by assumption)
  · exact ⟨0, rfl⟩

private theorem Valid.startCap_limit (hvalid : buf.Valid) : buf.startCap < sizeLimit := by
  unfold startCap
  split
  · exact hvalid.limit
  · decide

theorem init_valid : init.Valid := ⟨rfl, Nat.le_refl _, .inl rfl, by decide⟩

/-- What a reservation that succeeds leaves. -/
structure Reserved (buf : RawBuf) (n : Nat) (grown : RawBuf) : Prop where
  valid : grown.Valid
  content : grown.content = buf.content
  len : grown.len = buf.len
  room : buf.len + n ≤ grown.cap

private theorem reserve_of_room (heap : Heap) {n : Nat} (hvalid : buf.Valid)
    (hroom : buf.len + n ≤ buf.cap) : buf.reserve heap n = (.ok, buf) := by
  have hlimit := hvalid.limit
  rw [reserve, frCheckedAddSize, if_pos (by omega)]
  exact if_pos hroom

private theorem realloc_reserved {n k : Nat} {block : Vector UInt8 (buf.startCap * 2^k)}
    (hvalid : buf.Valid) (hfull : buf.cap < buf.len + n) (hlimit : buf.startCap * 2^k < sizeLimit)
    (hneeded : buf.len + n ≤ buf.startCap * 2^k) :
    Reserved buf n { buf with
      data := writeAt block.toList 0 (buf.data.take (buf.startCap * 2^k))
      cap := buf.startCap * 2^k } := by
  have hold : buf.data.length = buf.cap := hvalid.allocated
  have hlen := hvalid.within
  have htake : buf.data.take (buf.startCap * 2^k) = buf.data :=
    List.take_of_length_le (by omega)
  have hdata : writeAt block.toList 0 (buf.data.take (buf.startCap * 2^k)) =
      buf.data ++ block.toList.drop buf.data.length := by
    rw [htake, writeAt, List.take_zero, List.nil_append, Nat.zero_add]
  have hlength : (buf.data ++ block.toList.drop buf.data.length).length = buf.startCap * 2^k := by
    rw [List.length_append, List.length_drop, Vector.length_toList]
    omega
  obtain ⟨j, hj⟩ := hvalid.startCap_shape
  rw [hdata]
  refine ⟨⟨hlength, ?_, .inr ⟨j + k, ?_⟩, hlimit⟩, ?_, rfl, hneeded⟩
  · dsimp only
    omega
  · dsimp only
    rw [hj, Nat.mul_assoc, ← Nat.pow_add]
  · have hbehind : buf.len ≤ buf.data.length := hold ▸ hlen
    exact List.take_append_of_le_length hbehind

/-- The capacity that the loop finds is the least one. -/
private theorem least_capacity {needed i k : Nat} (hfull : buf.cap < needed)
    (hshape : buf.startCap = 64 * 2^i) (hsmall : ∀ j < k, buf.startCap * 2^j < needed) :
    ∀ j < i + k, 64 * 2^j < needed := by
  intro j hj
  by_cases hji : j < i
  · have hpow : 2^j < 2^i := Nat.pow_lt_pow_right (by omega) hji
    unfold startCap at hshape
    split at hshape
    · omega
    · have hone := Nat.two_pow_pos j
      omega
  · have hnext := hsmall (j - i) (by omega)
    rwa [hshape, Nat.mul_assoc, ← Nat.pow_add, Nat.add_sub_cancel' (Nat.not_lt.mp hji)] at hnext

private theorem reserve_cases (heap : Heap) (hvalid : buf.Valid) (n : Nat) :
    ((buf.reserve heap n).1 = .ok ∧ Reserved buf n (buf.reserve heap n).2) ∨
    (NoRoom heap (buf.len + n) (buf.reserve heap n).1 ∧ (buf.reserve heap n).2 = buf) := by
  by_cases hroom : buf.len + n ≤ buf.cap
  · rw [reserve_of_room heap hvalid hroom]
    exact .inl ⟨rfl, hvalid, rfl, rfl, hroom⟩
  unfold reserve frCheckedAddSize
  by_cases hsum : buf.len + n < sizeLimit
  · rw [if_pos hsum]
    dsimp only
    rw [if_neg hroom]
    obtain ⟨i, hi⟩ := hvalid.startCap_shape
    cases hgrow : growCap 65 (buf.len + n) buf.startCap with
    | none =>
      have hloop := buf.growLoop_startCap (buf.len + n)
      exact .inr ⟨.inr ⟨rfl, fun k hk => hloop.overflows hgrow hi hk⟩, rfl⟩
    | some newCap =>
      obtain ⟨hlimit, hneeded, k, rfl, hsmall⟩ := growCap_eq_some hgrow hvalid.startCap_limit
      dsimp only
      unfold realloc
      cases hblock : heap (buf.startCap * 2^k) with
      | none =>
        have hleast := least_capacity (Nat.not_le.mp hroom) hi hsmall
        rw [hi, Nat.mul_assoc, ← Nat.pow_add] at hblock hneeded
        exact .inr ⟨.inl ⟨rfl, i + k, hneeded, hleast, hblock⟩, rfl⟩
      | some block =>
        exact .inl ⟨rfl, realloc_reserved hvalid (Nat.not_le.mp hroom) hlimit hneeded⟩
  · rw [if_neg hsum]
    exact .inr ⟨.inr ⟨rfl, fun k hk => by omega⟩, rfl⟩

theorem NoRoom.status {needed : Nat} {st : FrStatus} (h : NoRoom heap needed st) :
    st = .eNomem ∨ st = .eOverflow := h.imp And.left And.left

private theorem content_length (hvalid : buf.Valid) : buf.content.length = buf.len := by
  rw [content, List.length_take, hvalid.allocated, Nat.min_eq_left hvalid.within]

theorem reserve_results (heap : Heap) (hvalid : buf.Valid) (n : Nat) :
    Results heap buf (some n) (some buf.content) (buf.reserve heap n) := by
  have hcases := reserve_cases heap hvalid n
  generalize buf.reserve heap n = result at hcases ⊢
  obtain ⟨st, grown⟩ := result
  rcases hcases with ⟨rfl, hgrown⟩ | ⟨hwhy, rfl⟩
  · exact .done hgrown.valid hgrown.content
  · exact .noRoom rfl (by rwa [content_length hvalid])

private theorem push_eq (buf : RawBuf) (bytes : Bytes) :
    buf.push bytes =
      { buf with data := writeAt buf.data buf.len bytes, len := buf.len + bytes.length } := by
  unfold push
  split
  · rfl
  · rename_i hnone
    obtain rfl : bytes = [] := List.length_eq_zero_iff.mp (not_not.mp hnone)
    rw [writeAt, List.append_nil, List.length_nil, Nat.add_zero, List.take_append_drop]

private theorem push_spec (hvalid : buf.Valid) (hroom : buf.len + bytes.length ≤ buf.cap) :
    (buf.push bytes).Valid ∧ (buf.push bytes).content = buf.content ++ bytes := by
  have hlen := content_length hvalid
  have hwritten : (buf.content ++ bytes).length = buf.len + bytes.length := by
    rw [List.length_append, hlen]
  rw [push_eq]
  refine ⟨⟨?_, hroom, hvalid.shape, hvalid.limit⟩, ?_⟩
  · dsimp only
    rw [writeAt, ← content, List.length_append, hwritten, List.length_drop, hvalid.allocated]
    omega
  · have hdata : writeAt buf.data buf.len bytes =
        buf.content ++ bytes ++ buf.data.drop (buf.len + bytes.length) := rfl
    rw [hdata, content, List.take_append_of_le_length hwritten.ge,
      List.take_of_length_le hwritten.le]

theorem Reserved.push {grown : RawBuf} (h : Reserved buf bytes.length grown) :
    (grown.push bytes).Valid ∧ (grown.push bytes).content = buf.content ++ bytes := by
  have hroom : grown.len + bytes.length ≤ grown.cap := h.len ▸ h.room
  rw [← h.content]
  exact push_spec h.valid hroom

theorem append_results (heap : Heap) (hvalid : buf.Valid) (src : Span) :
    Results heap buf (some src.size) (src.bytes?.map (buf.content ++ ·)) (buf.append heap src) := by
  unfold append
  cases hbytes : src.bytes? with
  | none => exact .refused (.inl rfl)
  | some bytes =>
    rw [Span.size_eq hbytes]
    dsimp only
    have hcases := reserve_cases heap hvalid bytes.length
    generalize buf.reserve heap bytes.length = result at hcases ⊢
    obtain ⟨st, grown⟩ := result
    rcases hcases with ⟨rfl, hgrown⟩ | ⟨hwhy, rfl⟩
    · exact .done hgrown.push.1 hgrown.push.2
    · rcases hwhy.status with rfl | rfl <;>
        exact .noRoom rfl (by rwa [content_length hvalid])

private theorem append_of_room (heap : Heap) {src : Span} (hvalid : buf.Valid)
    (hsrc : src.bytes? = some bytes) (hroom : buf.len + bytes.length ≤ buf.cap) :
    buf.append heap src = (.ok, buf.push bytes) := by
  rw [append, hsrc]
  dsimp only
  rw [reserve_of_room heap hvalid hroom]

theorem clear_valid (hvalid : buf.Valid) : buf.clear.Valid :=
  ⟨hvalid.allocated, Nat.zero_le _, hvalid.shape, hvalid.limit⟩

theorem clear_content (buf : RawBuf) : buf.clear.content = [] := List.take_zero

theorem consume_results (heap : Heap) (hvalid : buf.Valid) (n : Nat) :
    Results heap buf none (if n ≤ buf.content.length then some (buf.content.drop n) else none)
      (buf.consume n) := by
  have hlen := content_length hvalid
  have hallocated := hvalid.allocated
  have hwithin := hvalid.within
  unfold consume
  rw [hlen]
  by_cases hfew : buf.len < n
  · rw [if_pos hfew, if_neg (Nat.not_le.mpr hfew)]
    exact .refused (.inr rfl)
  rw [if_neg hfew, if_pos (Nat.not_lt.mp hfew)]
  by_cases hzero : n ≠ 0
  · rw [if_pos hzero]
    have hmoved : ((buf.data.drop n).take (buf.len - n)).length = buf.len - n := by
      rw [List.length_take, List.length_drop]
      omega
    refine .done ⟨?_, ?_, hvalid.shape, hvalid.limit⟩ ?_
    · dsimp only
      rw [writeAt, List.take_zero, List.nil_append, Nat.zero_add, List.length_append,
        List.length_drop, hmoved]
      omega
    · dsimp only
      omega
    · rw [content, content, writeAt, List.take_zero, List.nil_append,
        List.take_append_of_le_length hmoved.ge, List.take_of_length_le hmoved.le, List.drop_take]
  · obtain rfl := not_not.mp hzero
    exact .done hvalid rfl

/-- What `fr_frame_encode` is to put behind the content. -/
def frameBytes (type : UInt8) (flags : UInt16) (reqId : UInt32) (payload : Span) : Option Bytes :=
  if frMsgTypeValid type = true ∧ flags = 0 ∧ reqId ≠ 0 ∧ payload.size ≤ frFrameMaxPayload then
    payload.bytes?.map (frameHeader type flags reqId (UInt32.ofNat payload.size) ++ ·)
  else none

theorem Reserved.frame {grown : RawBuf} {header : Bytes} (heap : Heap) {payload : Span}
    (hbytes : payload.bytes? = some bytes)
    (hgrown : Reserved buf (header.length + bytes.length) grown) :
    ∃ full, (match grown.append heap (.memory header) with
      | (.ok, out) => out.append heap payload
      | (st, out) => (st, out)) = (.ok, full) ∧
      full.Valid ∧ full.content = buf.content ++ (header ++ bytes) := by
  have hroom := hgrown.room
  have hheader : grown.len + header.length ≤ grown.cap := by
    rw [hgrown.len]
    omega
  obtain ⟨hvalid, hcontent⟩ := push_spec hgrown.valid hheader
  have hpayload : (grown.push header).len + bytes.length ≤ (grown.push header).cap := by
    have hlen : (grown.push header).len = grown.len + header.length := rfl
    have hcap : (grown.push header).cap = grown.cap := rfl
    rw [hlen, hcap, hgrown.len]
    omega
  obtain ⟨hvalid', hcontent'⟩ := push_spec hvalid hpayload
  refine ⟨_, ?_, hvalid', ?_⟩
  · rw [append_of_room heap hgrown.valid rfl hheader]
    exact append_of_room heap hvalid hbytes hpayload
  · rw [hcontent', hcontent, hgrown.content, List.append_assoc]

theorem frameEncode_results (heap : Heap) (hvalid : buf.Valid) (type : UInt8) (flags : UInt16)
    (reqId : UInt32) (payload : Span) :
    Results heap buf (some (frFrameHeaderSize + payload.size))
      ((frameBytes type flags reqId payload).map (buf.content ++ ·))
      (buf.frameEncode heap type flags reqId payload) := by
  unfold frameEncode frameBytes
  by_cases htype : (!frMsgTypeValid type) = true
  · rw [if_pos htype, if_neg fun h => absurd h.1 (by simpa using htype)]
    exact .refused (.inl rfl)
  rw [if_neg htype]
  by_cases hflags : flags ≠ 0
  · rw [if_pos hflags, if_neg fun h => hflags h.2.1]
    exact .refused (.inl rfl)
  rw [if_neg hflags]
  by_cases hreq : reqId = 0
  · rw [if_pos hreq, if_neg fun h => h.2.2.1 hreq]
    exact .refused (.inl rfl)
  rw [if_neg hreq]
  cases hbytes : payload.bytes? with
  | none =>
    rw [if_pos rfl, Option.map_none, ite_self]
    exact .refused (.inl rfl)
  | some bytes =>
    rw [if_neg (Option.some_ne_none bytes)]
    by_cases hlarge : frFrameMaxPayload < payload.size
    · rw [if_pos hlarge, if_neg fun h => absurd h.2.2.2 (Nat.not_le.mpr hlarge)]
      exact .refused (.inr rfl)
    have hgood : frMsgTypeValid type = true ∧ flags = 0 ∧ reqId ≠ 0 ∧
        payload.size ≤ frFrameMaxPayload :=
      ⟨by simpa using htype, not_not.mp hflags, hreq, Nat.not_lt.mp hlarge⟩
    have htotal : frFrameHeaderSize + payload.size < sizeLimit := by
      unfold frFrameMaxPayload at hlarge
      unfold frFrameHeaderSize sizeLimit
      omega
    have hsize : frFrameHeaderSize + payload.size =
        (frameHeader type flags reqId (UInt32.ofNat payload.size)).length + bytes.length := by
      rw [frameHeader_length, Span.size_eq hbytes, frFrameHeaderSize]
    rw [if_neg hlarge, if_pos hgood, frCheckedAddSize, if_pos htotal]
    dsimp only
    have hcases := reserve_cases heap hvalid (frFrameHeaderSize + payload.size)
    rw [hsize] at hcases ⊢
    generalize frameHeader type flags reqId (UInt32.ofNat payload.size) = header at hcases ⊢
    generalize buf.reserve heap (header.length + bytes.length) = result at hcases ⊢
    obtain ⟨st, grown⟩ := result
    rcases hcases with ⟨rfl, hgrown⟩ | ⟨hwhy, rfl⟩
    · obtain ⟨full, hfull, hvalid', hcontent⟩ := hgrown.frame heap hbytes
      dsimp only
      rw [hfull]
      exact .done hvalid' hcontent
    · rcases hwhy.status with rfl | rfl <;>
        exact .noRoom rfl (by rwa [content_length hvalid])

/-- A read into a buffer appends what it takes from the rest, or leaves both: where the rest is
short, and where there is no room. -/
theorem readerBytes_cases (heap : Heap) (hvalid : buf.Valid) (r : FrBufReader) (n : Nat) :
    ((readerBytes heap r buf n).1 = .ok ∧ n ≤ r.rest.length ∧
      (readerBytes heap r buf n).2.1 = { r with pos := r.pos + n } ∧
      (readerBytes heap r buf n).2.2.Valid ∧
      (readerBytes heap r buf n).2.2.content = buf.content ++ r.rest.take n) ∨
    ((readerBytes heap r buf n).2 = (r, buf) ∧
      (r.rest.length < n ∧ (readerBytes heap r buf n).1 = .eRange ∨
        n ≤ r.rest.length ∧
          NoRoom heap (buf.content.length + n) (readerBytes heap r buf n).1)) := by
  have hrest : r.rest.length = frBufReaderRemaining r := List.length_drop
  unfold readerBytes
  rw [hrest]
  by_cases hfew : frBufReaderRemaining r < n
  · rw [if_pos hfew]
    exact .inr ⟨rfl, .inl ⟨hfew, rfl⟩⟩
  rw [if_neg hfew]
  have htaken : (r.rest.take n).length = n := by
    rw [List.length_take, hrest]
    omega
  have hcases := reserve_cases heap hvalid n
  generalize buf.reserve heap n = result at hcases ⊢
  obtain ⟨st, grown⟩ := result
  rcases hcases with ⟨rfl, hgrown⟩ | ⟨hwhy, rfl⟩
  · rw [← htaken] at hgrown
    obtain ⟨hvalid', hcontent⟩ := hgrown.push
    exact .inl ⟨rfl, Nat.not_lt.mp hfew, rfl, hvalid', hcontent⟩
  · rw [← content_length hvalid] at hwhy
    rcases hwhy.status with rfl | rfl <;> exact .inr ⟨rfl, .inr ⟨Nat.not_lt.mp hfew, hwhy⟩⟩

/-- The buffer as the parser and the codecs have it: its content and its capacity. -/
def view (buf : RawBuf) : FrBuf := ⟨buf.content, buf.cap⟩

private theorem reserve_view (heap : Heap) (hvalid : buf.Valid) (n : Nat) :
    frBufReserve (fun size => (heap size).isSome) buf.view n =
      ((buf.reserve heap n).1, (buf.reserve heap n).2.view) := by
  have hlen : buf.view.data.length = buf.len := content_length hvalid
  by_cases hroom : buf.len + n ≤ buf.cap
  · have hlimit := hvalid.limit
    rw [reserve_of_room heap hvalid hroom, frBufReserve, hlen, if_neg (by omega)]
    exact if_pos hroom
  have hcases := reserve_cases heap hvalid n
  unfold frBufReserve
  rw [hlen]
  unfold reserve frCheckedAddSize at hcases ⊢
  by_cases hsum : buf.len + n < sizeLimit
  · rw [if_pos hsum] at hcases ⊢
    rw [if_neg (Nat.not_le.mpr hsum)]
    dsimp only at hcases ⊢
    have hcap : buf.view.cap = buf.cap := rfl
    rw [if_neg hroom] at hcases ⊢
    rw [hcap, if_neg hroom, ← startCap]
    cases hgrow : growCap 65 (buf.len + n) buf.startCap with
    | none => rfl
    | some newCap =>
      rw [hgrow] at hcases
      dsimp only at hcases ⊢
      unfold realloc at hcases ⊢
      rcases Option.eq_none_or_eq_some (heap newCap) with hblock | ⟨block, hblock⟩
      · rw [if_neg (by simp [hblock]), hblock]
        rfl
      · rw [if_pos (by simp [hblock]), hblock]
        rw [hblock] at hcases
        rcases hcases with ⟨-, hgrown⟩ | ⟨hfailed, -⟩
        · rw [view, view, ← hgrown.content]
          rfl
        · rcases hfailed.status with h | h <;> cases h
  · rw [if_neg hsum, if_pos (Nat.not_lt.mp hsum)]

theorem append_view (heap : Heap) (hvalid : buf.Valid) (bytes : Bytes) :
    frBufAppend (fun size => (heap size).isSome) buf.view bytes =
      ((buf.append heap (.memory bytes)).1, (buf.append heap (.memory bytes)).2.view) := by
  have hcases := reserve_cases heap hvalid bytes.length
  rw [frBufAppend, reserve_view heap hvalid, append, Span.bytes?]
  dsimp only
  generalize buf.reserve heap bytes.length = result at hcases ⊢
  obtain ⟨st, grown⟩ := result
  rcases hcases with ⟨rfl, hgrown⟩ | ⟨hfailed, rfl⟩
  · obtain ⟨-, hcontent⟩ := hgrown.push
    dsimp only [view]
    rw [hcontent, hgrown.content]
    rfl
  · rcases hfailed.status with rfl | rfl <;> rfl

end RawBuf

end ForgeRelay
