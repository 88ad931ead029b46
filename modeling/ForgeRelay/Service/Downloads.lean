import ForgeRelay.Core.Decimal
import ForgeRelay.Service.Replies
import ForgeRelay.Storage.Reading
import Mathlib.Algebra.Order.BigOperators.Group.List

/-!
# Downloads in progress

Only GET_ARTIFACT starts a download, and only its critical sections change the state of one. All
other requests end with one reply.
-/

namespace ForgeRelay

open Program

/-- The states of the downloads are as before. -/
structure SameDownloads (s s' : Service) : Prop where
  gets : s'.gets = s.gets
  getSeq : s'.getSeq = s.getSeq

theorem SameDownloads.refl (s : Service) : SameDownloads s s := ⟨rfl, rfl⟩

theorem SameDownloads.trans {s s' s'' : Service} (h : SameDownloads s s')
    (h' : SameDownloads s' s'') : SameDownloads s s'' :=
  ⟨h'.gets.trans h.gets, h'.getSeq.trans h.getSeq⟩

/-- The program does not touch the downloads. -/
def KeepsDownloads {α : Type} (p : ServiceM α) : Prop := ∀ s, SameDownloads s (p.run s).2

variable {α β : Type}

namespace KeepsDownloads

theorem pure (a : α) : KeepsDownloads (Pure.pure a : ServiceM α) := fun s => .refl s

theorem throw (e : Error) : KeepsDownloads (MonadExcept.throw e : ServiceM α) := fun s => .refl s

theorem ofExcept (r : Except Error α) : KeepsDownloads (Prog.ofExcept r : ServiceM α) := by
  cases r <;> exact fun s => .refl s

theorem bind {p : ServiceM α} {k : α → ServiceM β} (hp : KeepsDownloads p)
    (hk : ∀ a, KeepsDownloads (k a)) : KeepsDownloads (p >>= k) := by
  intro s
  have hfirst := hp s
  rw [Prog.run_bind]
  rcases hrun : p.run s with ⟨e | a, s'⟩
  · rw [hrun] at hfirst
    exact hfirst
  · rw [hrun] at hfirst
    exact hfirst.trans (hk a s')

theorem onStore {sec : Section} {p : StorageM α} : KeepsDownloads (ForgeRelay.onStore sec p) := by
  intro s
  rw [ForgeRelay.onStore, Prog.run_lift]
  exact ⟨rfl, rfl⟩

theorem registry {f : AuthDb → Except Error α} : KeepsDownloads (ForgeRelay.registry f) := by
  intro s
  rw [ForgeRelay.registry, Prog.run_lift]
  exact .refl s

theorem registryUpdate {f : AuthDb → Except Error (α × AuthDb)} :
    KeepsDownloads (ForgeRelay.registryUpdate f) := by
  intro s
  rw [ForgeRelay.registryUpdate, Prog.run_lift]
  cases f s.auth <;> exact ⟨rfl, rfl⟩

theorem noteAuthFailure {env : RequestEnv} {peer : Bytes} :
    KeepsDownloads (ForgeRelay.noteAuthFailure env peer) := by
  intro s
  rw [ForgeRelay.noteAuthFailure, Prog.run_lift]
  exact ⟨rfl, rfl⟩

end KeepsDownloads

/-- The program does not touch the downloads, and if it succeeds its result is one OK frame. -/
structure Plain (frame : FrFrame) (p : ServiceM HandleResult) : Prop where
  keeps : KeepsDownloads p
  replies : ∀ {s s' result}, p.run s = (.ok result, s') → ∃ payload, result = makeOk frame payload

namespace Plain

variable {frame : FrFrame}

theorem throw (e : Error) : Plain frame (MonadExcept.throw e : ServiceM HandleResult) :=
  ⟨.throw e, fun h => by cases h⟩

theorem okEmpty : Plain frame (pure (ForgeRelay.okEmpty frame)) :=
  ⟨.pure _, fun h => by cases h; exact ⟨[], rfl⟩⟩

theorem bind {p : ServiceM α} {k : α → ServiceM HandleResult} (hp : KeepsDownloads p)
    (hk : ∀ a, Plain frame (k a)) : Plain frame (p >>= k) := by
  refine ⟨.bind hp fun a => (hk a).keeps, fun h => ?_⟩
  obtain ⟨a, s₁, -, hrest⟩ := Prog.run_bind_ok h
  exact (hk a).replies hrest

theorem replyOk {enc : MsgEncoder} : Plain frame (ForgeRelay.replyOk frame enc) :=
  bind (.ofExcept _) fun payload => ⟨.pure _, fun h => by cases h; exact ⟨payload, rfl⟩⟩

end Plain

variable {sha : Sha256} {env : RequestEnv} {connId : Nat} {peer : Bytes} {session : ClientSession}
  {frame : FrFrame} {s s' : Service}

private theorem handleAbortUpload_plain : Plain frame (handleAbortUpload env session frame) := by
  refine .bind (.ofExcept _) fun sessionId => .bind (fun s => ?_) fun _ => .okEmpty
  rw [Prog.run_lift]
  split <;> exact ⟨rfl, rfl⟩

private theorem dispatchBusiness_plain (htype : FrMsgType.ofByte frame.type ≠ some .getArtifact) :
    Plain frame (dispatchBusiness sha env connId session frame) := by
  unfold dispatchBusiness
  split
  · exact .bind (.ofExcept _) fun _ => .bind (.ofExcept _) fun _ => .bind .onStore fun _ => .replyOk
  · exact .bind (.ofExcept _) fun _ => .bind .onStore fun _ => .bind .onStore fun _ => .replyOk
  · refine .bind (.ofExcept _) fun _ => .bind .onStore fun _ => ?_
    dsimp only
    split
    · exact .throw _
    · exact .replyOk
  · exact .bind (.ofExcept _) fun _ => .bind .onStore fun _ => .replyOk
  · exact handleAbortUpload_plain
  · exact absurd ‹_› htype
  · exact .bind (.ofExcept _) fun _ => .bind (.ofExcept _) fun _ => .bind .onStore fun _ => .replyOk
  · exact .bind (.ofExcept _) fun _ => .bind (.ofExcept _) fun _ => .bind .onStore fun _ => .replyOk
  · refine .bind (.ofExcept _) fun _ => .bind .onStore fun _ => .bind (fun s => ?_) fun _ =>
      .replyOk
    rw [Prog.run_lift]
    exact .refl s
  · exact .bind (.ofExcept _) fun _ => .bind .onStore fun _ => .bind .onStore fun _ =>
      .bind .registryUpdate fun _ => .replyOk
  · exact .bind (.ofExcept _) fun _ => .bind (.ofExcept _) fun _ => .bind .onStore fun _ =>
      .bind .registryUpdate fun _ => .replyOk
  · exact .bind (.ofExcept _) fun _ => .bind (.ofExcept _) fun _ => .bind .registryUpdate fun _ =>
      .bind .registryUpdate fun _ => .okEmpty
  · exact .bind (.ofExcept _) fun _ => .bind (.ofExcept _) fun _ => .bind .registryUpdate fun _ =>
      .bind .registryUpdate fun _ => .okEmpty
  · exact .bind (.ofExcept _) fun _ => .bind .registry fun _ => .replyOk
  · exact .bind (.ofExcept _) fun _ => .bind (.ofExcept _) fun _ => .bind .registryUpdate fun _ =>
      .bind .registryUpdate fun _ => .replyOk
  · exact .bind (.ofExcept _) fun _ => .bind (.ofExcept _) fun _ => .bind .registryUpdate fun _ =>
      .bind .registryUpdate fun _ => .okEmpty
  · exact .bind (.ofExcept _) fun _ => .bind (.ofExcept _) fun _ => .bind .registry fun _ =>
      .replyOk
  · exact .bind (.ofExcept _) fun _ => .bind .onStore fun _ => .replyOk
  · exact .bind (.ofExcept _) fun _ => .bind (.ofExcept _) fun _ => .bind .onStore fun _ =>
      .bind .registryUpdate fun _ => .okEmpty
  · exact .throw _

/-- What `handle` has got when only its reply to an exception is left. -/
inductive Reached (connId : Nat) (frame : FrFrame) (s : Service) :
    Except Error HandleResult → Service → Prop
  | replied {payload : Bytes} {close : Bool} {s' : Service} (hsame : SameDownloads s s') :
      Reached connId frame s (.ok { makeOk frame payload with closeConnection := close }) s'
  | failed {e : Error} {s' : Service} (hsame : SameDownloads s s') :
      Reached connId frame s (.error e) s'
  | download {req : GetArtifactReq} {r : Except Error HandleResult} {s' : Service}
      (htype : FrMsgType.ofByte frame.type = some .getArtifact)
      (hreq : decodeFrame decodeGetArtifactReq frame = .ok req)
      (hrun : (startGet connId frame req).run s = (r, s')) : Reached connId frame s r s'

private theorem dispatchBusiness_reached :
    Reached connId frame s ((dispatchBusiness sha env connId session frame).run s).1
      ((dispatchBusiness sha env connId session frame).run s).2 := by
  by_cases htype : FrMsgType.ofByte frame.type = some .getArtifact
  · have hhandler : dispatchBusiness sha env connId session frame =
        handleGetArtifact connId session frame := by
      rw [dispatchBusiness, htype]
    rw [hhandler, handleGetArtifact]
    cases hrole : requireRole session .reader with
    | error e => exact .failed (.refl s)
    | ok u =>
      cases hreq : decodeFrame decodeGetArtifactReq frame with
      | error e =>
        rw [decode, hreq]
        exact .failed (.refl s)
      | ok req =>
        rw [decode, hreq]
        exact .download htype hreq rfl
  · have hplain : Plain frame (dispatchBusiness sha env connId session frame) :=
      dispatchBusiness_plain htype
    rcases hrun : (dispatchBusiness sha env connId session frame).run s with ⟨e | result, s'⟩
    · have hsame := hplain.keeps s
      rw [hrun] at hsame
      exact .failed hsame
    · have hsame := hplain.keeps s
      rw [hrun] at hsame
      obtain ⟨payload, rfl⟩ := hplain.replies hrun
      exact .replied hsame

theorem handleFrame_reached : ∃ session' r s',
    (handleFrame sha env connId peer session frame).run s = (.ok (session', r), s') ∧
      Reached connId frame s r s' := by
  have hplain : ∀ e : Except Error Bytes, Reached connId frame s (e.map (makeOk frame)) s := by
    intro e
    cases e with
    | error e => exact .failed (.refl s)
    | ok payload => exact .replied (.refl s)
  unfold handleFrame
  split
  · split
    · exact ⟨_, _, _, rfl, hplain _⟩
    · exact ⟨_, _, _, rfl, .failed (.refl s)⟩
  · obtain ⟨verified, hverify⟩ : ∃ r, (verifyAuth sha env peer frame).run s = (r, s) :=
      ⟨_, Prod.ext rfl (verifyAuth_state sha env peer frame s)⟩
    rw [Prog.run_bind, outcome_run, hverify]
    cases verified with
    | error e => exact ⟨session, _, s, rfl, .failed (.refl s)⟩
    | ok ok =>
      exact ⟨session.authenticate ok, (payloadOf (encodeAuthOk ok)).map (makeOk frame), s, rfl,
        hplain _⟩
  · refine ⟨_, _, _, rfl, ?_⟩
    cases decodeFrame decodeData frame with
    | error e => exact .failed (.refl s)
    | ok payload => exact .replied (.refl s)
  · exact ⟨_, _, _, rfl, .replied (.refl s)⟩
  · rw [Prog.run_bind, outcome_run]
    refine ⟨session, _, _, rfl, ?_⟩
    split
    · exact .failed (.refl s)
    · exact dispatchBusiness_reached

theorem handleFrame_get (sha : Sha256) (env : RequestEnv) (connId : Nat) (peer : Bytes)
    (session : ClientSession) (frame : FrFrame)
    (htype : FrMsgType.ofByte frame.type = some .getArtifact) (s : Service) :
    (handleFrame sha env connId peer session frame).run s =
      (.ok (session, ((handleGetArtifact connId session frame).run s).1),
        ((handleGetArtifact connId session frame).run s).2) := by
  have hbusiness : (if session.authenticated = false then
      throw (.of .eUnauthenticated "authentication required")
      else dispatchBusiness sha env connId session frame) =
        handleGetArtifact connId session frame := by
    split
    · rename_i hauth
      rw [handleGetArtifact, requireRole, if_pos hauth]
      rfl
    · rw [dispatchBusiness, htype]
  rw [handleFrame, htype]
  dsimp only
  rw [hbusiness, Prog.run_bind, outcome_run]
  rfl

theorem handle_reached : ∃ session' r s₁, Reached connId frame s r s₁ ∧
    (handle sha env connId peer session frame).run s =
      match r with
      | .ok result => (.ok (result, session'), s₁)
      | .error (.fr code what) => (replyError env peer session' frame code what).run s₁
      | .error (.std what) => (.error (.std what), s₁) := by
  obtain ⟨session', r, s₁, hrun, hreached⟩ := handleFrame_reached (s := s)
  refine ⟨session', r, s₁, hreached, ?_⟩
  rw [handle, Prog.run_bind, hrun]
  rcases r with (⟨code, what⟩ | what) | result <;> rfl

theorem replyError_short {code : FrStatus} {what : Bytes} (hlen : what.length ≤ maxStringLen) :
    ∃ session' close s', SameDownloads s s' ∧
      (replyError env peer session frame code what).run s =
        (.ok ({ HandleResult.empty with
          out := [errorFrame (outReqId frame) code what], closeConnection := close }, session'),
          s') := by
  by_cases hfailed : code = .eUnauthenticated ∧ FrMsgType.ofByte frame.type = some .auth
  · obtain ⟨rfl, htype⟩ := hfailed
    exact ⟨_, _, s.noteFailure env peer, ⟨rfl, rfl⟩, replyError_auth htype hlen⟩
  · exact ⟨_, _, _, .refl s, replyError_run hfailed hlen⟩

theorem replyError_long {code : FrStatus} {what : Bytes} (hlen : maxStringLen < what.length) :
    ∃ s', SameDownloads s s' ∧ (replyError env peer session frame code what).run s =
      (.error (.of .eArg "string field exceeds protocol limit"), s') := by
  unfold replyError
  dsimp only
  split
  · rw [Prog.run_bind]
    have hkeeps : KeepsDownloads (noteAuthFailure env peer) := .noteAuthFailure
    have hsame := hkeeps s
    rw [noteAuthFailure, Prog.run_lift] at hsame ⊢
    rw [payloadOf_error_long hlen]
    exact ⟨_, hsame, rfl⟩
  · rw [payloadOf_error_long hlen]
    exact ⟨s, .refl s, rfl⟩

private theorem getKey_eq (c : Nat) (n : UInt64) : getKey c n =
    ascii "get-" ++ (ascii (toString c) ++ 45 :: ascii (toString n.toNat)) := by
  simp only [getKey, ascii, String.toList_append, List.map_append, List.append_assoc]
  rfl

private theorem ascii_toString_cancel {c c' : Nat} {rest rest' : Bytes}
    (h : ascii (toString c) ++ 45 :: rest = ascii (toString c') ++ 45 :: rest') :
    c = c' ∧ rest = rest' := by
  have hsplit : ∀ (c : Nat) (rest : Bytes),
      (ascii (toString c) ++ 45 :: rest).takeWhile (· != 45) = ascii (toString c) := by
    intro c rest
    have hne : ∀ b ∈ ascii (toString c), (b != 45) = true := by
      intro b hb
      rw [bne_iff_ne]
      rintro rfl
      exact absurd (ascii_toString_digit hb).1 (by decide)
    rw [List.takeWhile_append_of_pos hne]
    simp
  have hconn : ascii (toString c) = ascii (toString c') := by
    rw [← hsplit c rest, h, hsplit c']
  rw [hconn] at h
  exact ⟨ascii_toString_injective hconn, (List.cons.inj (List.append_cancel_left h)).2⟩

private theorem getKey_injective {c c' : Nat} {n n' : UInt64} (h : getKey c n = getKey c' n') :
    c = c' ∧ n = n' := by
  rw [getKey_eq, getKey_eq] at h
  obtain ⟨hconn, hseq⟩ := ascii_toString_cancel (List.append_cancel_left h)
  exact ⟨hconn, UInt64.toNat_inj.mp (ascii_toString_injective hseq)⟩

theorem isPrefixOf_getKey {connId c : Nat} {n : UInt64} :
    (ascii ("get-" ++ toString connId ++ "-")).isPrefixOf (getKey c n) = true ↔ c = connId := by
  have hprefix : ascii ("get-" ++ toString connId ++ "-") =
      ascii "get-" ++ (ascii (toString connId) ++ [45]) := by
    simp only [ascii, String.toList_append, List.map_append, List.append_assoc]
    rfl
  rw [List.isPrefixOf_iff_prefix, hprefix, getKey_eq, List.prefix_append_right_inj]
  constructor
  · rintro ⟨rest, hrest⟩
    rw [List.append_assoc] at hrest
    exact (ascii_toString_cancel hrest).1.symm
  · rintro rfl
    exact ⟨ascii (toString n.toNat), by rw [List.append_assoc]; rfl⟩

/-- A download has had this key. -/
def Service.Used (s : Service) (key : Bytes) : Prop :=
  ∃ connId n, n.toNat < s.getSeq.toNat ∧ key = getKey connId n

theorem Service.not_used (s : Service) (connId : Nat) : ¬ s.Used (getKey connId s.getSeq) := by
  rintro ⟨connId', n, hlt, hkey⟩
  rw [← (getKey_injective hkey).2] at hlt
  exact Nat.lt_irrefl _ hlt

/-- Every download has a key that has been used, and a request with an id. -/
structure KeptDownloads (s : Service) : Prop where
  used : ∀ key state, s.gets key = some state → s.Used key
  reqId : ∀ key state, s.gets key = some state → state.reqId ≠ 0

theorem KeptDownloads.start (store : Store) (auth : AuthDb) :
    KeptDownloads (.start store auth) := by
  constructor <;>
  · intro key state hget
    cases hget

theorem KeptDownloads.fresh {s : Service} (h : KeptDownloads s) (connId : Nat) :
    s.gets (getKey connId s.getSeq) = none := by
  by_contra hsome
  obtain ⟨state, hstate⟩ := Option.ne_none_iff_exists'.mp hsome
  exact s.not_used connId (h.used _ _ hstate)

/-- A DATA frame. -/
def dataFrame (reqId : UInt32) (data : Bytes) : FrFrame := ⟨FrMsgType.data.toByte, 0, reqId, data⟩

/-- The OK frame that ends a download. -/
def lastFrame (reqId : UInt32) (sent : UInt64) : FrFrame :=
  ⟨FrMsgType.ok.toByte, 0, reqId, frStoreBe64 sent⟩

/-- The state of a download after a slice with that many bytes. -/
def GetState.advance (state : GetState) (sent : UInt64) : GetState :=
  { state with
    offset := state.offset + sent
    remaining := state.remaining - sent
    sent := state.sent + sent }

/-- What one slice of a download is. -/
structure IsSlice (state : GetState) (pieces : List Bytes) (sent : UInt64) : Prop where
  sum_le : (pieces.map List.length).sum ≤ sent.toNat
  sent_le : sent.toNat ≤ min dataSliceBytes.toNat state.remaining.toNat
  offset_lt : state.offset.toNat + sent.toNat < 2^64

theorem emit_dataFrames {reqId : UInt32} (hid : reqId ≠ 0) {pieces : List Bytes}
    (hlen : ∀ data ∈ pieces, data.length ≤ frFrameMaxPayload) (out : List FrFrame) :
    pieces.foldl (fun out data => emit out .data reqId data) out =
      out ++ pieces.map (dataFrame reqId) := by
  induction pieces generalizing out with
  | nil => simp
  | cons data pieces ih =>
    obtain ⟨hdata, hrest⟩ := List.forall_mem_cons.mp hlen
    rw [List.foldl_cons, emit_of_le out .data hid hdata, ih hrest]
    simp [dataFrame]

theorem sendSlice_ok {store : Store} {state state' : GetState} {out : List FrFrame}
    {sent : UInt64} (hid : state.reqId ≠ 0) (h : sendSlice store state = .ok (state', out, sent)) :
    state' = state.advance sent ∧
      ∃ pieces, IsSlice state pieces sent ∧ out = pieces.map (dataFrame state.reqId) := by
  unfold sendSlice at h
  dsimp only at h
  generalize hslice :
    (if dataSliceBytes < state.remaining then dataSliceBytes else state.remaining) = slice at h
  have hmin : slice.toNat = min dataSliceBytes.toNat state.remaining.toNat := by
    rw [← hslice, toNat_min]
  split at h
  · cases h
    refine ⟨by simp [GetState.advance], [], ⟨by simp, by simp, ?_⟩, rfl⟩
    simpa using state.offset.toNat_lt
  · split at h
    · rename_i pieces n hread
      cases h
      obtain ⟨hsum, hsent, hoffset⟩ := readArtifactSlice_ok (Prod.ext hread rfl)
      have hmax : dataSliceBytes.toNat ≤ frFrameMaxPayload := by decide
      have hlen : ∀ data ∈ pieces, data.length ≤ frFrameMaxPayload := by
        intro data hdata
        have hle := List.single_le_sum (l := pieces.map List.length) (by simp) data.length
          (List.mem_map_of_mem (f := List.length) hdata)
        omega
      exact ⟨rfl, pieces, ⟨hsum, hmin ▸ hsent, hoffset⟩, by
        rw [emit_dataFrames hid hlen, List.nil_append]⟩
    · cases h

theorem endOfGet_eq {reqId : UInt32} (hid : reqId ≠ 0) (out : List FrFrame) (state : GetState) :
    endOfGet out reqId state =
      .ok { HandleResult.empty with out := out ++ [lastFrame reqId state.sent] } := by
  have hpayload : payloadOf (encodeGetArtifactOk ⟨state.sent⟩) = .ok (frStoreBe64 state.sent) := rfl
  have hfits : (frStoreBe64 state.sent).length ≤ frFrameMaxPayload := by
    rw [frStoreBe64_length]
    decide
  have hemit := emit_of_le out .ok hid hfits
  rw [endOfGet, hpayload, Except.map, hemit]
  rfl

/-- How one critical section of a download in this state ends, and the states of the downloads
after it. -/
inductive Sliced (key : Bytes) (gets : Bytes → Option GetState) (state : GetState) :
    Except Error HandleResult → (Bytes → Option GetState) → Prop
  | failed (e : Error) : Sliced key gets state (.error e) (Function.update gets key (some state))
  | last {pieces : List Bytes} {sent : UInt64} (hslice : IsSlice state pieces sent) :
      Sliced key gets state
        (.ok { HandleResult.empty with
          out := pieces.map (dataFrame state.reqId) ++
            [lastFrame state.reqId (state.advance sent).sent] })
        (Function.update gets key none)
  | more {pieces : List Bytes} {sent : UInt64} (hslice : IsSlice state pieces sent) :
      Sliced key gets state
        (.ok { HandleResult.empty with
          out := pieces.map (dataFrame state.reqId), hasMore := true, continuationKey := key })
        (Function.update gets key (some (state.advance sent)))

/-- The state that a new download starts with. -/
def newGet (frame : FrFrame) (req : GetArtifactReq) : GetState :=
  ⟨req.ref.ns, req.ref.name, req.ref.version, req.offset, req.length, 0, outReqId frame⟩

theorem startGet_sliced {req : GetArtifactReq} (hnew : s.gets (getKey connId s.getSeq) = none) :
    ∃ r gets, Sliced (getKey connId s.getSeq) s.gets (newGet frame req) r gets ∧
      (startGet connId frame req).run s =
        (r, { s with getSeq := s.getSeq + 1, gets := gets }) := by
  rw [startGet, Prog.run_lift]
  dsimp only
  rw [hnew, Option.getD_none]
  rcases hslice : sendSlice s.store (newGet frame req) with e | ⟨state, out, sent⟩
  · rw [newGet] at hslice
    rw [hslice]
    exact ⟨_, _, .failed e, rfl⟩
  obtain ⟨rfl, pieces, hpieces, rfl⟩ := sendSlice_ok (outReqId_ne_zero frame) hslice
  rw [newGet] at hslice
  rw [hslice]
  dsimp only
  split
  · rw [endOfGet_eq (outReqId_ne_zero frame), Function.update_idem]
    exact ⟨_, _, .last hpieces, rfl⟩
  · rw [Function.update_idem]
    exact ⟨_, _, .more hpieces, rfl⟩

theorem handleGetContinue_none {key : Bytes} (hget : s.gets key = none) :
    (handleGetContinue key).run s = (.ok .empty, s) := by
  rw [handleGetContinue, Prog.run_lift, hget]

theorem handleGetContinue_sliced {key : Bytes} {state : GetState} (hget : s.gets key = some state)
    (hid : state.reqId ≠ 0) :
    ∃ r gets, Sliced key s.gets state r gets ∧
      (handleGetContinue key).run s = (r, { s with gets := gets }) := by
  rw [handleGetContinue, Prog.run_lift, hget]
  dsimp only
  rcases hslice : sendSlice s.store state with e | ⟨state', out, sent⟩
  · have hsame : Function.update s.gets key (some state) = s.gets := by
      rw [← hget, Function.update_eq_self]
    exact ⟨_, _, .failed e, by rw [hsame]⟩
  obtain ⟨rfl, pieces, hpieces, rfl⟩ := sendSlice_ok hid hslice
  dsimp only
  split
  · have hreq : (state.advance sent).reqId = state.reqId := rfl
    rw [hreq, endOfGet_eq hid]
    exact ⟨_, _, .last hpieces, rfl⟩
  · exact ⟨_, _, .more hpieces, rfl⟩

private theorem sendSlice_encodable {store : Store} {state state' : GetState} {out : List FrFrame}
    {sent : UInt64} (h : sendSlice store state = .ok (state', out, sent)) :
    ∀ f ∈ out, f.Encodable := by
  have hfold : ∀ (pieces : List Bytes) (out : List FrFrame), (∀ f ∈ out, f.Encodable) →
      ∀ f ∈ pieces.foldl (fun out data => emit out .data state.reqId data) out, f.Encodable := by
    intro pieces
    induction pieces with
    | nil => exact fun out hout => hout
    | cons data pieces ih => exact fun out hout => ih _ (emit_encodable hout _ _ _)
  unfold sendSlice at h
  dsimp only at h
  generalize (if dataSliceBytes < state.remaining then dataSliceBytes else state.remaining) = slice
    at h
  split at h
  · cases h
    exact List.forall_mem_nil _
  · split at h
    · cases h
      exact hfold _ [] (List.forall_mem_nil _)
    · cases h

private theorem endOfGet_encodable {out : List FrFrame} {reqId : UInt32} {state : GetState}
    {result : HandleResult} (h : endOfGet out reqId state = .ok result)
    (hout : ∀ f ∈ out, f.Encodable) : ∀ f ∈ result.out, f.Encodable := by
  cases h
  exact emit_encodable hout _ _ _

theorem startGet_encodable {req : GetArtifactReq} {result : HandleResult}
    (h : (startGet connId frame req).run s = (.ok result, s')) : ∀ f ∈ result.out, f.Encodable := by
  rw [startGet, Prog.run_lift] at h
  dsimp only at h
  split at h
  · cases h
  · rename_i hslice
    split at h
    · exact endOfGet_encodable (Prod.mk.inj h).1 (sendSlice_encodable hslice)
    · cases h
      exact sendSlice_encodable hslice

theorem handleGetContinue_encodable {key : Bytes} {result : HandleResult}
    (h : (handleGetContinue key).run s = (.ok result, s')) : ∀ f ∈ result.out, f.Encodable := by
  rw [handleGetContinue, Prog.run_lift] at h
  dsimp only at h
  split at h
  · cases h
    exact fun f hf => nomatch hf
  · split at h
    · cases h
    · rename_i hslice
      split at h
      · exact endOfGet_encodable (Prod.mk.inj h).1 (sendSlice_encodable hslice)
      · cases h
        exact sendSlice_encodable hslice

end ForgeRelay
