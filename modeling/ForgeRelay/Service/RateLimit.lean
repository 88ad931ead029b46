import ForgeRelay.Service.Revocation

/-!
# The rate limit of AUTH

The record of an address counts the failures in a window that the first of them opens, and blocks
the address when the count reaches the threshold. An AUTH that is refused because the address is
blocked is counted like one with a wrong token.
-/

namespace ForgeRelay

open Program

/-- The readings of `steady_clock` in seconds, whose nanoseconds have 64 bits. -/
def SteadyClock (now : Int64) : Prop := 0 ≤ now.toInt ∧ now.toInt ≤ 9223372036

instance (now : Int64) : Decidable (SteadyClock now) := inferInstanceAs (Decidable (_ ∧ _))

/-- The window is open, and one more failure in it reaches the threshold. -/
def IpStat.Full (now : Int64) (stat : IpStat) : Prop :=
  stat.windowStart ≠ 0 ∧ now - stat.windowStart ≤ ipFailureWindowSeconds ∧
    ipFailureThreshold ≤ stat.failures + 1

instance (now : Int64) (stat : IpStat) : Decidable (stat.Full now) :=
  inferInstanceAs (Decidable (_ ∧ _))

theorem IpStat.note_blockedUntil (now : Int64) (stat : IpStat) :
    (stat.note now).blockedUntil =
      if stat.Full now then now + ipBlockSeconds else stat.blockedUntil := by
  unfold IpStat.note
  dsimp only
  by_cases hreset : stat.windowStart = 0 ∨ ipFailureWindowSeconds < now - stat.windowStart
  · have hnot : ¬ stat.Full now := fun h =>
      hreset.elim h.1 fun hlt => Int64.not_le.mpr hlt h.2.1
    have hcount : ¬ ipFailureThreshold ≤ 0 + 1 := by decide
    rw [if_pos hreset, if_neg hnot, if_neg hcount]
  · obtain ⟨hstart, hopen⟩ := not_or.mp hreset
    rw [if_neg hreset]
    by_cases hcount : ipFailureThreshold ≤ stat.failures + 1
    · rw [if_pos hcount, if_pos ⟨hstart, Int64.not_lt.mp hopen, hcount⟩]
    · rw [if_neg hcount, if_neg fun h => hcount h.2.2]

theorem SteadyClock.add_block {now : Int64} (h : SteadyClock now) :
    (now + ipBlockSeconds).toInt = now.toInt + 60 := by
  rw [Int64.toInt_add, show ipBlockSeconds.toInt = 60 from rfl]
  obtain ⟨hlo, hhi⟩ := h
  exact Int.bmod_eq_of_le (by omega) (by omega)

/-- The record of an address, also if there is none. -/
def Service.stat (s : Service) (ip : Bytes) : IpStat := (s.ipStats ip).getD ⟨0, 0, 0⟩

theorem Service.stat_noteFailure (s : Service) (env : RequestEnv) (peer : Bytes) :
    (s.noteFailure env peer).stat (ipOf peer) = (s.stat (ipOf peer)).note env.monotonic := by
  rw [stat, noteFailure]
  dsimp only
  rw [Function.update_self]
  rfl

theorem Service.stat_noteFailure_of_ne (s : Service) (env : RequestEnv) {peer ip : Bytes}
    (hne : ipOf peer ≠ ip) : (s.noteFailure env peer).stat ip = s.stat ip := by
  rw [stat, noteFailure]
  dsimp only
  rw [Function.update_of_ne hne.symm]
  rfl

/-- What the limiter answers. -/
def limitText : Bytes := ascii "too many auth failures from your address"

/-- What AUTH finds behind the check of the address. -/
def authResult (sha : Sha256) (now : Int64) (auth : AuthDb) (frame : FrFrame) :
    Except Error AuthOk := do
  let req ← decodeFrame decodeAuthReq frame
  auth.verify sha now req.token

/-- The verification of the token fails. -/
def failsVerification (sha : Sha256) (now : Int64) (auth : AuthDb) (frame : FrFrame) : Bool :=
  match decodeFrame decodeAuthReq frame with
  | .ok req => !(auth.verify sha now req.token).isOk
  | .error _ => false

theorem AuthDb.verify_error {sha : Sha256} {db : AuthDb} {now : Int64} {token : Bytes} {e : Error}
    (h : db.verify sha now token = .error e) :
    ∃ what, e = .fr .eUnauthenticated what ∧ what.length ≤ maxStringLen ∧ what ≠ limitText := by
  unfold verify at h
  split at h
  · cases h
    exact ⟨_, rfl, by decide, by decide⟩
  split at h
  · cases h
    exact ⟨_, rfl, by decide, by decide⟩
  split at h
  · cases h
    exact ⟨_, rfl, by decide, by decide⟩
  split at h
  · cases h
    exact ⟨_, rfl, by decide, by decide⟩
  split at h
  · cases h
    exact ⟨_, rfl, by decide, by decide⟩
  · cases h

theorem getOr_error {α : Type} {what : String} {e : Error}
    {read : FrBufReader → Except FrStatus (α × FrBufReader)} {r : FrBufReader}
    (h : getOr what read r = .error e) : e = protocolError what := by
  unfold getOr at h
  split at h
  · cases h
  · cases h
    rfl

private theorem getStr_error : Codec.Raises (fun e => ∃ what, e = protocolError what) getStr := by
  refine .bind (fun r e h => ⟨_, getOr_error h⟩) fun len => ?_
  split
  · exact .throw ⟨_, rfl⟩
  · exact fun r e h => ⟨_, getOr_error h⟩

theorem decodeFrame_raises {α : Type} {E : Error → Prop} {dec : MsgDecoder α} {frame : FrFrame}
    {e : Error} (hdec : Codec.Raises E dec) (h : decodeFrame dec frame = .error e) : E e := by
  rw [decodeFrame] at h
  cases hrun : dec.run (frBufReaderInit frame.payload) with
  | error e' =>
    rw [hrun] at h
    cases h
    exact hdec _ _ hrun
  | ok result =>
    rw [hrun] at h
    cases h

private theorem decodeAuthReq_error {frame : FrFrame} {e : Error}
    (h : decodeFrame decodeAuthReq frame = .error e) : ∃ what, e = protocolError what :=
  decodeFrame_raises (.bind getStr_error fun _ => .pure _) h

section

variable {sha : Sha256} {env : RequestEnv} {connId : Nat} {peer : Bytes} {session : ClientSession}
  {frame : FrFrame} {s : Service}

private theorem verifyAuth_blocked (hclock : SteadyClock env.monotonic)
    (hblocked : env.monotonic < (s.stat (ipOf peer)).blockedUntil) :
    (verifyAuth sha env peer frame).run s = (.error (.fr .eUnauthenticated limitText), s) := by
  rw [verifyAuth, Prog.run_bind, checkPeerNotBlocked, Prog.run_lift]
  unfold Service.stat at hblocked
  cases hstat : s.ipStats (ipOf peer) with
  | none =>
    rw [hstat, Int64.lt_iff_toInt_lt] at hblocked
    exact absurd hblocked (Int.not_lt.mpr hclock.1)
  | some stat =>
    rw [hstat] at hblocked
    have hlater : env.monotonic < stat.blockedUntil := hblocked
    dsimp only
    rw [if_pos hlater]
    rfl

theorem verifyAuth_open (hopen : ¬ env.monotonic < (s.stat (ipOf peer)).blockedUntil) :
    (verifyAuth sha env peer frame).run s =
      (authResult sha env.call.now s.auth frame, s) := by
  have hpassed : (checkPeerNotBlocked env peer).run s = (.ok (), s) := by
    rw [checkPeerNotBlocked, Prog.run_lift]
    unfold Service.stat at hopen
    cases hstat : s.ipStats (ipOf peer) with
    | none => rfl
    | some stat =>
      rw [hstat] at hopen
      have hover : ¬ env.monotonic < stat.blockedUntil := hopen
      dsimp only
      rw [if_neg hover]
  rw [verifyAuth, Prog.run_bind, hpassed]
  dsimp only
  rw [Prog.run_bind, decode, authResult]
  cases decodeFrame decodeAuthReq frame with
  | error e => rfl
  | ok req =>
    change (registry fun auth => auth.verify sha env.call.now req.token).run s = _
    rw [registry, Prog.run_lift]
    rfl

/-- What becomes of the session and the result, by what `verifyAuth` returns. -/
def authOutcome (session : ClientSession) (frame : FrFrame) :
    Except Error AuthOk → ClientSession × Except Error HandleResult
  | .ok ok => (session.authenticate ok, (payloadOf (encodeAuthOk ok)).map (makeOk frame))
  | .error e => (session, .error e)

private theorem handleFrame_auth {r : Except Error AuthOk}
    (htype : FrMsgType.ofByte frame.type = some .auth)
    (hverify : (verifyAuth sha env peer frame).run s = (r, s)) :
    (handleFrame sha env connId peer session frame).run s =
      (.ok (authOutcome session frame r), s) := by
  unfold handleFrame
  rw [htype]
  dsimp only
  rw [Prog.run_bind, outcome_run, hverify]
  cases r <;> rfl

/-- The result of an AUTH that fails with this text. -/
def authFailed (session : ClientSession) (frame : FrFrame) (what : Bytes) : HandleResult :=
  { HandleResult.empty with
    out := [errorFrame (outReqId frame) .eUnauthenticated what]
    closeConnection := decide (authFailuresBeforeClose ≤ session.authFailures + 1) }

theorem authFailed_injective (session : ClientSession) (frame : FrFrame) :
    Function.Injective (authFailed session frame) := by
  intro what what' h
  exact congrArg (fun result => (result.out.map (·.payload.drop 6)).headD []) h

private theorem handle_authFailed {what : Bytes} (htype : FrMsgType.ofByte frame.type = some .auth)
    (hlen : what.length ≤ maxStringLen)
    (hverify : (verifyAuth sha env peer frame).run s = (.error (.fr .eUnauthenticated what), s)) :
    (handle sha env connId peer session frame).run s =
      (.ok (authFailed session frame what,
        { session with authFailures := session.authFailures + 1 }), s.noteFailure env peer) := by
  rw [handle, Prog.run_bind, handleFrame_auth htype hverify]
  exact replyError_auth htype hlen

variable (sha connId session) in
theorem handle_blocked (hclock : SteadyClock env.monotonic)
    (htype : FrMsgType.ofByte frame.type = some .auth)
    (hblocked : env.monotonic < (s.stat (ipOf peer)).blockedUntil) :
    (handle sha env connId peer session frame).run s =
      (.ok (authFailed session frame limitText,
        { session with authFailures := session.authFailures + 1 }), s.noteFailure env peer) :=
  handle_authFailed htype (by decide) (verifyAuth_blocked hclock hblocked)

theorem failsVerification_authResult {now : Int64} {auth : AuthDb}
    (h : failsVerification sha now auth frame = true) :
    ∃ what, authResult sha now auth frame = .error (.fr .eUnauthenticated what) ∧
      what.length ≤ maxStringLen ∧ what ≠ limitText := by
  unfold failsVerification at h
  cases hreq : decodeFrame decodeAuthReq frame with
  | error e =>
    rw [hreq] at h
    cases h
  | ok req =>
    rw [hreq] at h
    cases hverify : auth.verify sha now req.token with
    | ok ok =>
      dsimp only at h
      rw [hverify] at h
      cases h
    | error e =>
      obtain ⟨what, rfl, hlen, hne⟩ := AuthDb.verify_error hverify
      refine ⟨what, ?_, hlen, hne⟩
      rw [authResult, hreq]
      exact hverify

variable (connId session) in
theorem handle_failsVerification (htype : FrMsgType.ofByte frame.type = some .auth)
    (hopen : ¬ env.monotonic < (s.stat (ipOf peer)).blockedUntil)
    (hfails : failsVerification sha env.call.now s.auth frame = true) :
    ∃ what, what ≠ limitText ∧ (handle sha env connId peer session frame).run s =
      (.ok (authFailed session frame what,
        { session with authFailures := session.authFailures + 1 }), s.noteFailure env peer) := by
  obtain ⟨what, hresult, hlen, hne⟩ := failsVerification_authResult hfails
  exact ⟨what, hne, handle_authFailed htype hlen (by rw [verifyAuth_open hopen, hresult])⟩

/-- The reply to an AUTH that succeeds. -/
def authAccepted (frame : FrFrame) (ok : AuthOk) : HandleResult :=
  makeOk frame (frStoreBe16 (UInt16.ofNat ok.username.length) ++ ok.username ++ [ok.role])

private theorem payloadOf_authOk (ok : AuthOk) :
    payloadOf (encodeAuthOk ok) =
      if maxStringLen < ok.username.length then
        .error (.of .eArg "string field exceeds protocol limit")
      else .ok (frStoreBe16 (UInt16.ofNat ok.username.length) ++ ok.username ++ [ok.role]) := by
  rw [payloadOf, encodeAuthOk, StateT.run_bind, putStr]
  split <;> rfl

variable (connId session) in
theorem handle_verified {ok : AuthOk} (htype : FrMsgType.ofByte frame.type = some .auth)
    (hverify : (verifyAuth sha env peer frame).run s = (.ok ok, s)) :
    ∃ result, (handle sha env connId peer session frame).run s =
        (.ok (result, session.authenticate ok), s) ∧
      (ok.username.length ≤ maxStringLen → result = authAccepted frame ok) := by
  rw [handle, Prog.run_bind, handleFrame_auth htype hverify]
  dsimp only [authOutcome]
  rw [payloadOf_authOk]
  by_cases hlong : maxStringLen < ok.username.length
  · have hreply : (replyError env peer (session.authenticate ok) frame .eArg
        (ascii "string field exceeds protocol limit")).run s = _ :=
      replyError_run (fun h => absurd h.1 (by decide)) (by decide)
    rw [if_pos hlong]
    exact ⟨_, hreply, fun hlen => absurd hlen (Nat.not_le.mpr hlong)⟩
  · rw [if_neg hlong]
    exact ⟨_, rfl, fun _ => rfl⟩

private theorem replyError_state {code : FrStatus} {what : Bytes}
    (hcode : code ≠ .eUnauthenticated) :
    ((replyError env peer session frame code what).run s).2 = s := by
  have hnot : ¬ (code = .eUnauthenticated ∧ FrMsgType.ofByte frame.type = some .auth) :=
    fun h => hcode h.1
  by_cases hlen : what.length ≤ maxStringLen
  · rw [replyError_run hnot hlen]
  · unfold replyError
    dsimp only
    rw [if_neg hnot, if_neg hnot, payloadOf_error_long (Nat.not_le.mp hlen)]
    rfl

variable (sha env connId peer session s) in
theorem handle_auth_state (htype : FrMsgType.ofByte frame.type = some .auth) :
    ((handle sha env connId peer session frame).run s).2 = s ∨
      ((handle sha env connId peer session frame).run s).2 = s.noteFailure env peer := by
  have hstate := verifyAuth_state sha env peer frame s
  rcases hverify : (verifyAuth sha env peer frame).run s with ⟨r, s'⟩
  obtain rfl : s' = s := by rw [← hstate, hverify]
  rw [handle, Prog.run_bind, handleFrame_auth htype hverify]
  rcases authOutcome session frame r with ⟨session', (⟨code, what⟩ | what) | result⟩
  · by_cases hcode : code = .eUnauthenticated
    · right
      subst hcode
      unfold replyError
      dsimp only
      rw [if_pos ⟨rfl, htype⟩, Prog.run_bind, noteAuthFailure_run]
      cases payloadOf (encodeErrorPayload ⟨FrStatus.eUnauthenticated.code, what⟩) <;> rfl
    · exact .inl (replyError_state hcode)
  · exact .inl rfl
  · exact .inl rfl

theorem handle_passed (htype : FrMsgType.ofByte frame.type = some .auth)
    (hopen : ¬ env.monotonic < (s.stat (ipOf peer)).blockedUntil)
    (hpasses : failsVerification sha env.call.now s.auth frame = false) :
    ((handle sha env connId peer session frame).run s).2 = s := by
  cases hreq : decodeFrame decodeAuthReq frame with
  | error e =>
    obtain ⟨what, rfl⟩ := decodeAuthReq_error hreq
    have hresult : authResult sha env.call.now s.auth frame = .error (protocolError what) := by
      rw [authResult, hreq]
      rfl
    rw [handle, Prog.run_bind, handleFrame_auth htype (verifyAuth_open hopen), hresult]
    exact replyError_state (by decide)
  | ok req =>
    unfold failsVerification at hpasses
    rw [hreq] at hpasses
    cases hverify : s.auth.verify sha env.call.now req.token with
    | error e =>
      dsimp only at hpasses
      rw [hverify] at hpasses
      cases hpasses
    | ok ok =>
      have hresult : authResult sha env.call.now s.auth frame = .ok ok := by
        rw [authResult, hreq]
        exact hverify
      obtain ⟨result, hrun, -⟩ : ∃ result, (handle sha env connId peer session frame).run s =
          (.ok (result, session.authenticate ok), s) ∧ _ :=
        handle_verified connId session htype (by rw [verifyAuth_open hopen, hresult])
      rw [hrun]

end

/-- `allow_peer` turns a peer away exactly when an AUTH from it is refused because its address is
blocked, if and only if the deadline of the block has passed on both clocks or on neither. -/
theorem blockChecks_agree_iff (s : Service) (env : RequestEnv) (wall : Int64) (peer : Bytes) :
    (allowPeer wall peer s = false ↔
      ((checkPeerNotBlocked env peer).run s).1 = .error (.fr .eUnauthenticated limitText)) ↔
    ∀ stat, s.ipStats (ipOf peer) = some stat →
      stat.blockedUntil ≤ wall ∧ stat.blockedUntil ≤ env.monotonic ∨
        wall < stat.blockedUntil ∧ env.monotonic < stat.blockedUntil := by
  rw [allowPeer, checkPeerNotBlocked, Prog.run_lift]
  cases hstat : s.ipStats (ipOf peer) with
  | none => simp
  | some stat =>
    have hfar : decide (stat.blockedUntil ≤ wall) = false ↔ wall < stat.blockedUntil := by
      rw [decide_eq_false_iff_not, Int64.not_le]
    have hnear : (if env.monotonic < stat.blockedUntil then
        (.error (.of .eUnauthenticated "too many auth failures from your address"), s)
        else (.ok (), s) : Except Error Unit × Service).1 =
          .error (.fr .eUnauthenticated limitText) ↔ env.monotonic < stat.blockedUntil := by
      split
      · rename_i hblocked
        exact ⟨fun _ => hblocked, fun _ => rfl⟩
      · rename_i hopen
        exact ⟨fun h => (by cases h), fun h => absurd h hopen⟩
    dsimp only
    rw [hfar, hnear]
    refine ⟨fun hiff stat' hstat' => ?_, fun hsides => ?_⟩
    · obtain rfl := Option.some.inj hstat'
      by_cases hwall : wall < stat.blockedUntil
      · exact .inr ⟨hwall, hiff.mp hwall⟩
      · have hopen : ¬ env.monotonic < stat.blockedUntil := fun h => hwall (hiff.mpr h)
        exact .inl ⟨Int64.not_lt.mp hwall, Int64.not_lt.mp hopen⟩
    · rcases hsides stat rfl with ⟨hwall, hopen⟩ | ⟨hwall, hblocked⟩
      · exact iff_of_false (Int64.not_lt.mpr hwall) (Int64.not_lt.mpr hopen)
      · exact iff_of_true hwall hblocked

/-- Twenty failures on a machine that runs since 100 seconds: the address is blocked until 160. -/
def blockedService : Service :=
  (·.noteFailure (sampleRequestEnv 100) (ascii "10.0.0.7:4000"))^[20] (.start .empty .empty)

/-- An AUTH a second later is refused, and the address may connect by the time of day. -/
theorem blocked_peer_allowed :
    ¬ (allowPeer 1700000000 (ascii "10.0.0.7:4000") blockedService = false ↔
      ((checkPeerNotBlocked (sampleRequestEnv 101) (ascii "10.0.0.7:4000")).run
        blockedService).1 = .error (.fr .eUnauthenticated limitText)) := by
  decide +kernel

end ForgeRelay
