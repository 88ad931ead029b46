import ForgeRelay.Service.Authorization
import ForgeRelay.Service.Downloads
import ForgeRelay.Storage.Reading

/-!
# Downloads that have to be refused

A download of an artifact that does not exist, or from behind its end, is refused by storage. The
dispatcher asks storage only for a slice that is not empty, and answers a download of no bytes
itself.
-/

namespace ForgeRelay

open Program Prog

/-- Why a download has to be refused: the exception of `read_artifact`. -/
def badGet (db : Db) (req : GetArtifactReq) : Option (FrStatus × Bytes) :=
  match db.artifact? req.ref.ns req.ref.name req.ref.version with
  | none => some (.eNotfound, ascii "artifact not found")
  | some a =>
    if a.size < req.offset then some (.eRange, ascii "read offset beyond artifact size") else none

section

variable {store : Store} {req : GetArtifactReq} {code : FrStatus} {what : Bytes}

private theorem refused_of_show {α : Type} {k : ArtifactInfo → StorageM α}
    (hbad : badGet store.db req = some (code, what))
    (hrange : ∀ info : ArtifactInfo, info.size < req.offset →
      k info = MonadExcept.throw (Error.of .eRange "read offset beyond artifact size")) :
    (showArtifact req.ref.ns req.ref.name req.ref.version >>= k).run store =
      (.error (.fr code what), store) := by
  unfold badGet at hbad
  rw [run_bind]
  cases hfound : store.db.artifact? req.ref.ns req.ref.name req.ref.version with
  | none =>
    rw [hfound] at hbad
    cases hbad
    rw [showArtifact, run_bind, run_select, hfound]
    rfl
  | some a =>
    rw [hfound] at hbad
    dsimp only at hbad
    split at hbad
    · rename_i hbehind
      cases hbad
      rw [showArtifact_run hfound]
      dsimp only
      rw [hrange _ hbehind]
      rfl
    · cases hbad

private theorem readArtifact_bad (hbad : badGet store.db req = some (code, what))
    (length : UInt64) :
    (readArtifact req.ref.ns req.ref.name req.ref.version req.offset length).run store =
      (.error (.fr code what), store) :=
  refused_of_show hbad fun _ hbehind => if_pos hbehind

private theorem readArtifactSlice_bad (hbad : badGet store.db req = some (code, what))
    (maxLen : UInt64) :
    (readArtifactSlice req.ref.ns req.ref.name req.ref.version req.offset maxLen).run store =
      (.error (.fr code what), store) :=
  refused_of_show hbad fun _ hbehind => if_pos hbehind

/-- The first slice is asked of storage unless no bytes are to be read. -/
private theorem sendSlice_bad (frame : FrFrame) (hbad : badGet store.db req = some (code, what)) :
    sendSlice store (newGet frame req) =
      if req.length = 0 then .ok (newGet frame req, [], 0) else .error (.fr code what) := by
  unfold sendSlice newGet
  dsimp only
  have hempty : (if dataSliceBytes < req.length then dataSliceBytes else req.length) = 0 ↔
      req.length = 0 := by
    split
    · rename_i hlong
      have hne : req.length ≠ 0 := fun h => by
        rw [h] at hlong
        exact absurd hlong (by decide)
      exact iff_of_false (by decide) hne
    · exact Iff.rfl
  by_cases hlength : req.length = 0
  · rw [if_pos (hempty.mpr hlength), if_pos hlength]
  · rw [if_neg fun h => hlength (hempty.mp h), if_neg hlength, readArtifactSlice_bad hbad]

end

section

variable {sha : Sha256} {env : RequestEnv} {connId : Nat} {peer : Bytes} {session : ClientSession}
  {frame : FrFrame} {req : GetArtifactReq} {s : Service}

/-- The reply to an exception of a download: one ERROR frame. -/
def refusedGet (frame : FrFrame) (code : FrStatus) (what : Bytes) : HandleResult :=
  { HandleResult.empty with out := [errorFrame (outReqId frame) code what] }

private theorem handle_get (hauth : session.authenticated = true)
    (htype : FrMsgType.ofByte frame.type = some .getArtifact)
    (hreq : decodeFrame decodeGetArtifactReq frame = .ok req) :
    (handle sha env connId peer session frame).run s =
      match (startGet connId frame req).run s with
      | (.ok result, s') => (.ok (result, session), s')
      | (.error (.fr code what), s') => (replyError env peer session frame code what).run s'
      | (.error (.std what), s') => (.error (.std what), s') := by
  have hrole : requireRole session .reader = .ok () := by
    rw [requireRole, if_neg (by rw [hauth]; exact Bool.noConfusion)]
    by_cases hadmin : session.role = .admin
    · rw [if_pos hadmin]
    · rw [if_neg hadmin]
      rfl
  have hhandler : handleGetArtifact connId session frame = startGet connId frame req := by
    rw [handleGetArtifact, hrole, decode, hreq]
    rfl
  have hbusiness : frame.isBusiness = true := by rw [FrFrame.isBusiness, htype]
  have hdispatch : dispatchBusiness sha env connId session frame =
      handleGetArtifact connId session frame := by rw [dispatchBusiness, htype]
  rw [← hhandler, ← hdispatch]
  exact handle_business hbusiness hauth

private theorem handle_badGet {code : FrStatus} {what : Bytes}
    (hnew : s.gets (getKey connId s.getSeq) = none) (hauth : session.authenticated = true)
    (htype : FrMsgType.ofByte frame.type = some .getArtifact)
    (hreq : decodeFrame decodeGetArtifactReq frame = .ok req)
    (hbad : badGet s.store.db req = some (code, what)) (hlen : what.length ≤ maxStringLen) :
    ((handle sha env connId peer session frame).run s).1 =
      .ok (if req.length = 0 then
        { HandleResult.empty with out := [lastFrame (outReqId frame) 0] }
        else refusedGet frame code what, session) := by
  have hslice := sendSlice_bad frame hbad
  rw [handle_get hauth htype hreq, startGet, run_lift]
  dsimp only
  rw [hnew, Option.getD_none]
  rw [newGet] at hslice
  rw [hslice]
  by_cases hlength : req.length = 0
  · rw [if_pos hlength, if_pos hlength]
    dsimp only
    rw [if_pos hlength, endOfGet_eq (outReqId_ne_zero frame)]
    rfl
  · have hnot : ¬ (code = .eUnauthenticated ∧ FrMsgType.ofByte frame.type = some .auth) := by
      rw [htype]
      exact fun h => by cases h.2
    rw [if_neg hlength, if_neg hlength]
    dsimp only
    rw [replyError_run hnot hlen]
    rfl

private theorem badGet_short {db : Db} {code : FrStatus} {what : Bytes}
    (hbad : badGet db req = some (code, what)) : what.length ≤ maxStringLen := by
  unfold badGet at hbad
  split at hbad
  · cases hbad
    decide
  · split at hbad <;> cases hbad
    decide

/-- A download that `read_artifact` refuses is refused with the same code and text, and without a
DATA frame, if and only if it is a download of at least one byte. -/
theorem badGet_refused_iff (hkept : KeptDownloads s)
    (hauth : session.authenticated = true)
    (htype : FrMsgType.ofByte frame.type = some .getArtifact)
    (hreq : decodeFrame decodeGetArtifactReq frame = .ok req) :
    (∀ code what, badGet s.store.db req = some (code, what) →
      ((handle sha env connId peer session frame).run s).1 =
          .ok (refusedGet frame code what, session) ∧
        decodeFrame decodeErrorPayload (errorFrame (outReqId frame) code what) =
          .ok ⟨code.code, what⟩ ∧
        ((readArtifact req.ref.ns req.ref.name req.ref.version req.offset req.length).run
          s.store).1 = .error (.fr code what)) ↔
    badGet s.store.db req = none ∨ req.length ≠ 0 := by
  have hnew := hkept.fresh connId
  refine ⟨fun hrefused => ?_, fun hcond code what hbad => ?_⟩
  · by_contra hnot
    obtain ⟨hbad, hlength⟩ := not_or.mp hnot
    obtain ⟨⟨code, what⟩, hbad⟩ := Option.ne_none_iff_exists'.mp hbad
    have hreply : ((handle sha env connId peer session frame).run s).1 = _ :=
      handle_badGet hnew hauth htype hreq hbad (badGet_short hbad)
    rw [(hrefused code what hbad).1, if_pos (not_not.mp hlength)] at hreply
    have htypes : [FrMsgType.error.toByte] = [FrMsgType.ok.toByte] :=
      congrArg (fun result : HandleResult => result.out.map fun reply : FrFrame => reply.type)
        (Prod.mk.inj (Except.ok.inj hreply)).1
    exact absurd htypes (by decide)
  · have hlength : req.length ≠ 0 := hcond.resolve_left (by rw [hbad]; exact Option.some_ne_none _)
    have hlen := badGet_short hbad
    refine ⟨?_, decode_errorFrame hlen, by rw [readArtifact_bad hbad]⟩
    rw [handle_badGet hnew hauth htype hreq hbad hlen, if_neg hlength]

end

def plainReader : ClientSession := ⟨true, true, ascii "bob", .reader, 0⟩

/-- A download of an artifact that does not exist. -/
def missingGet (length : UInt64) : FrFrame :=
  sampleFrame .getArtifact (encodeGetArtifactReq
    ⟨⟨ascii "team", ascii "app", ascii "1.0"⟩, 0, length⟩)

theorem badGet_refused_iff_sample :
    ((handle sampleSha (sampleRequestEnv 1) 1 (ascii "10.0.0.7:4000") plainReader
      (missingGet 1)).run (.start .empty .empty)).1 =
      .ok (refusedGet (missingGet 1) .eNotfound (ascii "artifact not found"), plainReader) :=
  have hreq : decodeFrame decodeGetArtifactReq (missingGet 1) =
      .ok ⟨⟨ascii "team", ascii "app", ascii "1.0"⟩, 0, 1⟩ := by decide +kernel
  ((badGet_refused_iff (.start .empty .empty) rfl (by decide +kernel) hreq).mpr
    (.inr (by decide)) _ _ rfl).1

/-- A download of no bytes of it succeeds. -/
theorem missingGet_succeeds :
    ¬ ∀ code what, badGet (Service.start .empty .empty).store.db
        ⟨⟨ascii "team", ascii "app", ascii "1.0"⟩, 0, 0⟩ = some (code, what) →
      ((handle sampleSha (sampleRequestEnv 1) 1 (ascii "10.0.0.7:4000") plainReader
        (missingGet 0)).run (.start .empty .empty)).1 =
          .ok (refusedGet (missingGet 0) code what, plainReader) := by
  intro hrefused
  exact absurd (hrefused .eNotfound (ascii "artifact not found") rfl) (by decide +kernel)

end ForgeRelay
