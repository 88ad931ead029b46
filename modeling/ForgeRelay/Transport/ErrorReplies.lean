import ForgeRelay.Service.ErrorTexts
import ForgeRelay.Transport.Handling

/-!
# The status of an ERROR frame

An error whose text does not fit an ERROR frame makes the reply throw itself, and the worker
answers with the status of that. So a client is told of a wrong argument where the registry does
not know a user with a long name; any other status reaches it.
-/

namespace ForgeRelay

open Program Prog

variable {sha : Sha256} {env : RequestEnv} {session session' : ClientSession} {task : Task}
  {s s' : Service} {code : FrStatus} {what : Bytes}

private theorem errorReply (env : RequestEnv) (session : ClientSession) (task : Task) (s : Service)
    (code : FrStatus) (what : Bytes) :
    ∃ result reply text, workerResult task
        (((replyError env task.peer session task.frame code what).run s).1.map Prod.fst) =
        .ok result ∧ result.out = [reply] ∧ reply.type = FrMsgType.error.toByte ∧
      decodeFrame decodeErrorPayload reply =
        .ok ⟨(if what.length ≤ maxStringLen then code else .eArg).code, text⟩ := by
  by_cases hlen : what.length ≤ maxStringLen
  · obtain ⟨session', close, s', -, hrun⟩ := replyError_short (s := s) hlen
    rw [hrun, if_pos hlen]
    exact ⟨_, _, what, rfl, rfl, rfl, decode_errorFrame hlen⟩
  · obtain ⟨s', -, hrun⟩ := replyError_long (s := s) (Nat.not_le.mp hlen)
    have hshort : (ascii "string field exceeds protocol limit").length ≤ maxStringLen := by decide
    rw [hrun, if_neg hlen]
    exact ⟨_, _, _, (workerCatch_short hshort).1, rfl, rfl, decode_errorFrame hshort⟩

/-- When the request of a task throws an `fr::Error`, the client gets one ERROR frame. Its status
is that of the error if and only if the request does not name an unknown user with a name that is
too long to be quoted. -/
theorem errorReply_code_iff (hkind : task.isGetContinue = false)
    (hthrows : (handleFrame sha env task.connId task.peer session task.frame).run s =
      (.ok (session', .error (.fr code what)), s')) :
    ∃ result reply got, (handleTask sha env session task s).1 = .ok result ∧
      result.out = [reply] ∧ reply.type = FrMsgType.error.toByte ∧
      decodeFrame decodeErrorPayload reply = .ok got ∧
      (got.code = code.code ↔ ¬ NamesLongUnknown s.auth session task.frame) := by
  obtain ⟨result, reply, text, hresult, hout, htype, hdecode⟩ :=
    errorReply env session' task s' code what
  refine ⟨result, reply, _, ?_, hout, htype, hdecode, ?_⟩
  · unfold handleTask
    rw [hkind, handle, run_bind, hthrows]
    exact hresult
  have hthrown := handleFrame_thrown hthrows
  dsimp only
  generalize hlong : NamesLongUnknown s.auth session task.frame = long at hthrown ⊢
  cases hthrown with
  | fits hshort hfits =>
    have hlen : what.length ≤ maxStringLen := hfits
    exact iff_of_true (by rw [if_pos hlen]) hshort
  | arg hshort => exact iff_of_true (by rw [ite_self]) hshort
  | @unknown _ username hfits =>
    have hlen : ¬ (cString (ascii "user not found: " ++ username)).length ≤ maxStringLen := hfits
    refine iff_of_false ?_ (not_not.mpr ‹_›)
    rw [if_neg hlen]
    decide

/-- The administrator `root`. -/
def rootSession : ClientSession := ⟨true, true, ascii "root", .admin, 0⟩

/-- A request to disable this user. -/
def disableTask (username : Bytes) : Task :=
  ⟨1, ascii "10.0.0.7:4000", FrMsgType.userDisable.toByte, 9,
    (payloadOf (putStr username)).toOption.getD [], false, []⟩

/-- `bob` is not there, and `root` is told so. -/
theorem errorReply_code_iff_bob : ∃ result reply got,
    (handleTask sampleSha (sampleRequestEnv 1) rootSession (disableTask (ascii "bob"))
      (.start .empty .empty)).1 = .ok result ∧ result.out = [reply] ∧
    reply.type = FrMsgType.error.toByte ∧ decodeFrame decodeErrorPayload reply = .ok got ∧
    (got.code = FrStatus.eNotfound.code ↔ ¬ NamesLongUnknown (Service.start .empty .empty).auth
      rootSession (disableTask (ascii "bob")).frame) := by
  have hthrows : ((handleFrame sampleSha (sampleRequestEnv 1) 1 (ascii "10.0.0.7:4000")
      rootSession (disableTask (ascii "bob")).frame).run (.start .empty .empty)).1 =
        .ok (rootSession, .error (.of .eNotfound "user not found: bob")) := by decide +kernel
  exact errorReply_code_iff rfl (Prod.ext hthrows rfl)

/-- A name of 497 bytes is not there either, and `root` is told that an argument was wrong. -/
theorem longUnknown_wrongStatus :
    let task := disableTask (List.replicate 497 120)
    ((handleFrame sampleSha (sampleRequestEnv 1) task.connId task.peer rootSession task.frame).run
      (.start .empty .empty)).1 = .ok (rootSession, .error (.fr .eNotfound
        (ascii "user not found: " ++ List.replicate 497 120))) ∧
    ((handleTask sampleSha (sampleRequestEnv 1) rootSession task (.start .empty .empty)).1.map
      fun result => result.out.map (decodeFrame decodeErrorPayload)) =
        .ok [.ok ⟨FrStatus.eArg.code, ascii "string field exceeds protocol limit"⟩] ∧
    FrStatus.eArg.code ≠ FrStatus.eNotfound.code := by
  decide +kernel

end ForgeRelay
