import ForgeRelay.Service.RateLimit
import ForgeRelay.Storage.Steps

/-!
# The texts of errors

An ERROR frame carries its text as a string field. The texts of the errors that a request can end
with fit such a field, but for those of USER_DISABLE and TOKEN_CREATE, which quote the username of
the request.
-/

namespace ForgeRelay

open Program Prog Codec

/-- The text fits a string field. -/
def Error.Fits : Error → Prop
  | .fr _ what | .std what => what.length ≤ maxStringLen

private theorem Error.of_fits {code : FrStatus} {message : String}
    (h : message.length ≤ maxStringLen) : (Error.of code message).Fits := by
  change (ascii message).length ≤ _
  rwa [ascii_length]

section Fields

private theorem protocolError_fits {what : String} (h : what.length ≤ 500) :
    (protocolError what).Fits := by
  refine Error.of_fits ?_
  rw [String.length_append]
  change 9 + what.length ≤ 512
  omega

private theorem getOr_raises {α : Type} {what : String}
    {read : FrBufReader → Except FrStatus (α × FrBufReader)} (h : what.length ≤ 500) :
    Raises Error.Fits (getOr what read) := by
  intro r e he
  rw [getOr_error he]
  exact protocolError_fits h

private theorem putBytes_raises (value : Bytes) : Raises Error.Fits (putBytes value) := by
  intro out e he
  cases he

private theorem getU8_raises : Raises Error.Fits getU8 := getOr_raises (by decide)

private theorem getU32_raises : Raises Error.Fits getU32 := getOr_raises (by decide)

private theorem getU64_raises : Raises Error.Fits getU64 := getOr_raises (by decide)

private theorem getStr_raises : Raises Error.Fits getStr := by
  refine .bind (getOr_raises (by decide)) fun len => ?_
  split
  · exact .throw (protocolError_fits (by decide))
  · exact getOr_raises (by decide)

private theorem getRest_raises : Raises Error.Fits getRest := fun r e he =>
  have hraises : Raises Error.Fits (getOr "rest truncated" _) := getOr_raises (by decide)
  hraises r e he

private theorem getRef_raises : Raises Error.Fits getRef :=
  .bind getStr_raises fun _ => .bind getStr_raises fun _ => .bind getStr_raises fun _ => .pure _

private theorem getOptStr_raises : Raises Error.Fits getOptStr := by
  refine .bind (.bind getU8_raises fun _ => .pure _) fun present => ?_
  split
  · exact .bind getStr_raises fun _ => .pure _
  · exact .pure _

private theorem putStr_raises (value : Bytes) : Raises Error.Fits (putStr value) := by
  unfold putStr
  split
  · exact .throw (Error.of_fits (by decide))
  · exact .bind (putBytes_raises _) fun _ => putBytes_raises _

private theorem putDigest_raises (hex : Bytes) : Raises Error.Fits (putDigest hex) := by
  unfold putDigest
  split
  · exact .throw (Error.of_fits (by decide))
  · exact putBytes_raises _

private theorem putRef_raises (ref : ArtifactRef) : Raises Error.Fits (putRef ref) :=
  .bind (putStr_raises _) fun _ => .bind (putStr_raises _) fun _ => putStr_raises _

private theorem encodeItems_raises {α : Type} {item : α → MsgEncoder} {items : List α}
    (h : ∀ x, Raises Error.Fits (item x)) : Raises Error.Fits (encodeItems item items) :=
  .bind (putBytes_raises _) fun _ => .items h items

private theorem payloadOf_raises {enc : MsgEncoder} {e : Error} (h : Raises Error.Fits enc)
    (he : payloadOf enc = .error e) : e.Fits := by
  unfold payloadOf at he
  cases hrun : enc.run [] with
  | error e' =>
    rw [hrun] at he
    cases he
    exact h _ _ hrun
  | ok r =>
    rw [hrun] at he
    cases he

end Fields

/-- The bound that says of errors only that their texts fit. -/
def fitting {σ : Type} : Bound σ Error where
  inv _ := True
  rel _ _ := True
  err := Error.Fits
  refl _ := trivial
  trans _ _ := trivial

private theorem fitting_allows (now : Int64) :
    Allows now (fitting : Bound Store Error) (fun _ => True) fun _ => True where
  fr _ _ h := h
  reserve := show (ascii "vector::reserve").length ≤ maxStringLen by decide
  files _ _ := ⟨trivial, trivial⟩
  insertChunk _ _ _ := ⟨trivial, trivial⟩
  reactivate _ := ⟨trivial, trivial⟩
  markPending _ := ⟨trivial, trivial⟩
  deleteChunk _ := ⟨trivial, trivial⟩
  setSessionState _ _ := ⟨trivial, trivial⟩
  insertSession _ _ _ := ⟨trivial, trivial⟩
  deleteParts _ := ⟨trivial, trivial⟩
  insertPart _ _ _ _ := ⟨trivial, trivial⟩
  insertArtifact _ _ _ _ _ _ := ⟨trivial, trivial⟩
  insertArtifactChunk _ _ _ := ⟨trivial, trivial⟩
  removeArtifact _ := ⟨trivial, trivial⟩
  sessions _ _ _ := trivial
  parts _ _ _ := trivial
  dataLength _ _ _ := trivial

private theorem fitting_of {σ : Type} {code : FrStatus} {message : String}
    (h : message.length ≤ maxStringLen) : (fitting : Bound σ Error).err (.of code message) :=
  @Error.of_fits code message h

section

variable {α : Type} {sha : Sha256} {env : RequestEnv} {connId : Nat} {peer : Bytes}
  {session : ClientSession} {frame : FrFrame} {s : Service}

private theorem within_onStore {V : α → Prop} {sec : Section} {p : StorageM α}
    (hp : Within fitting V p) :
    Within fitting V (onStore sec p) :=
  .lift fun s _ => ⟨⟨trivial, trivial⟩, (hp.run (s := s.store) trivial).2⟩

private theorem ofExcept_fits {σ ℓ : Type} {r : Except Error α} (h : ∀ e, r = .error e → e.Fits) :
    Stays fitting (Prog.ofExcept r : Prog σ ℓ Error α) := by
  refine .ofExcept ?_
  cases r with
  | ok a => trivial
  | error e => exact h e rfl

private theorem decode_fits {dec : MsgDecoder α} (h : Raises Error.Fits dec) :
    Stays fitting (decode dec frame) := ofExcept_fits fun _ => decodeFrame_raises h

private theorem replyOk_fits {enc : MsgEncoder} (h : Raises Error.Fits enc) :
    Stays fitting (replyOk frame enc) :=
  .seq (ofExcept_fits fun _ => payloadOf_raises h) fun _ => .pure trivial

private theorem fits_of_stays {p : ServiceM α} {e : Error} (hp : Stays fitting p)
    (h : (p.run s).1 = .error e) : e.Fits := by
  have hresult := (hp.run (s := s) trivial).2
  rw [h] at hresult
  exact hresult

private theorem requireRole_error {required : Role} {e : Error}
    (h : requireRole session required = .error e) : e.Fits := by
  unfold requireRole at h
  split at h
  · cases h
    exact Error.of_fits (by decide)
  split at h
  · cases h
  split at h
  · cases h
    exact Error.of_fits (by decide)
  split at h
  · cases h
    exact Error.of_fits (by decide)
  · cases h

private theorem requireRole_fits {σ ℓ : Type} (required : Role) :
    Stays fitting (Prog.ofExcept (requireRole session required) : Prog σ ℓ Error Unit) :=
  ofExcept_fits fun _ => requireRole_error

private theorem requireSessionAllowed_error {info : SessionInfo} {e : Error}
    (h : requireSessionAllowed session info = .error e) : e.Fits := by
  unfold requireSessionAllowed at h
  cases hrole : requireRole session .publisher with
  | error e' =>
    rw [hrole] at h
    cases h
    exact requireRole_error hrole
  | ok u =>
    rw [hrole] at h
    change (if _ then _ else _) = _ at h
    split at h
    · cases h
      exact Error.of_fits (by decide)
    · cases h

private theorem getAllowedSession_fits (sessionId : Bytes) :
    Stays fitting (getAllowedSession session sessionId) :=
  .seq ((fitting_allows 0).loadSession sessionId).stays fun _ =>
    .seq (ofExcept_fits fun _ => requireSessionAllowed_error) fun _ => .pure trivial

private theorem requireDeleteAllowed_fits (ref : ArtifactRef) :
    Stays fitting (requireDeleteAllowed session ref) := by
  refine .seq (requireRole_fits _) fun _ => .ite (fun _ => .pure trivial) fun _ =>
    .ite (fun _ => .throw (fitting_of (by decide))) fun _ => ?_
  exact .seq ((fitting_allows 0).showArtifact _ _ _) fun _ =>
    .ite (fun _ => .throw (fitting_of (by decide))) fun _ => .pure trivial

private theorem audit_fits (action target : Bytes) :
    Stays fitting (audit env session action target) :=
  .lift fun _ _ => ⟨⟨trivial, trivial⟩, trivial⟩

private theorem registryUpdate_fits {f : AuthDb → Except Error (α × AuthDb)}
    (h : ∀ db e, f db = .error e → e.Fits) : Stays fitting (registryUpdate f) := by
  refine .lift fun s _ => ⟨⟨trivial, trivial⟩, ?_⟩
  cases hr : f s.auth with
  | ok r => trivial
  | error e => exact h _ _ hr

private theorem userAdd_error {db : AuthDb} {now : Int64} {username : Bytes} {role : Role}
    {e : Error}
    (h : (db.userAdd now username role).map (((), ·) : AuthDb → Unit × AuthDb) = .error e) :
    e.Fits := by
  unfold AuthDb.userAdd at h
  split at h
  · cases h
    exact Error.of_fits (by decide)
  split at h
  · cases h
    exact Error.of_fits (by decide)
  split at h
  · cases h
  · cases h
    exact Error.of_fits (by decide)

private theorem tokenRevoke_error {db : AuthDb} {now : Int64} {tokenId : UInt64} {e : Error}
    (h : (db.tokenRevoke now tokenId).map (((), ·) : AuthDb → Unit × AuthDb) = .error e) :
    e.Fits := by
  unfold AuthDb.tokenRevoke at h
  split at h
  · cases h
  · cases h
    exact Error.of_fits (by decide)

private theorem sendSlice_error {store : Store} {state : GetState} {e : Error}
    (h : sendSlice store state = .error e) : e.Fits := by
  unfold sendSlice at h
  dsimp only at h
  generalize (if dataSliceBytes < state.remaining then dataSliceBytes else state.remaining) = slice
    at h
  have hfits := (((fitting_allows 0).readArtifactSlice state.ns state.name state.version
    state.offset slice).run (s := store) trivial).2
  split at h
  · cases h
  split at h
  · cases h
  · rename_i hrun
    cases h
    rw [hrun] at hfits
    exact hfits

private theorem startGet_fits {req : GetArtifactReq} :
    Stays fitting (startGet connId frame req) := by
  refine .lift fun s _ => ⟨⟨trivial, trivial⟩, ?_⟩
  dsimp only
  split
  · rename_i e hslice
    exact sendSlice_error hslice
  · split
    · exact trivial
    · exact trivial

private theorem handleGetContinue_fits {key : Bytes} : Stays fitting (handleGetContinue key) := by
  refine .lift fun s _ => ⟨⟨trivial, trivial⟩, ?_⟩
  dsimp only
  split
  · exact trivial
  · split
    · rename_i e hslice
      exact sendSlice_error hslice
    · split
      · exact trivial
      · exact trivial

/-- The texts of the errors that a continuation can end with fit. -/
theorem handleGetContinue_error {key : Bytes} {e : Error} {s' : Service}
    (h : (handleGetContinue key).run s = (.error e, s')) : e.Fits :=
  fits_of_stays handleGetContinue_fits (congrArg Prod.fst h)

private theorem handleAbortUpload_fits : Stays fitting (handleAbortUpload env session frame) := by
  refine .seq (decode_fits getStr_raises) fun sessionId => .seq (.lift fun s _ => ?_) fun _ =>
    .pure trivial
  have hallowed : Stays fitting (getAllowedSession session sessionId) :=
    getAllowedSession_fits sessionId
  have hrun := (Within.seq hallowed fun _ =>
    (fitting_allows env.call.now).abortSession env.call rfl sessionId).run (s := s.store) trivial
  split
  · exact ⟨⟨trivial, trivial⟩, trivial⟩
  · rename_i e store habort
    rw [habort] at hrun
    exact ⟨⟨trivial, trivial⟩, hrun.2⟩

/-- The requests whose errors quote a username. -/
def QuotesUsername (frame : FrFrame) : Prop :=
  FrMsgType.ofByte frame.type = some .userDisable ∨
    FrMsgType.ofByte frame.type = some .tokenCreate

private theorem dispatchBusiness_fits (hquotes : ¬ QuotesUsername frame) :
    Stays fitting (dispatchBusiness sha env connId session frame) := by
  have hall := fitting_allows env.call.now
  unfold dispatchBusiness
  cases htype : FrMsgType.ofByte frame.type with
  | none => exact .throw (fitting_of (by decide))
  | some type =>
    cases type with
    | hello | auth | ping | close | data | ok | error => exact .throw (fitting_of (by decide))
    | userDisable => exact absurd (.inl htype) hquotes
    | tokenCreate => exact absurd (.inr htype) hquotes
    | abortUpload => exact handleAbortUpload_fits
    | createUpload =>
      exact .seq (requireRole_fits _) fun _ => .seq (decode_fits <| .bind getRef_raises fun _ =>
        .bind getU64_raises fun _ => .bind (getOr_raises (by decide)) fun _ => .pure _) fun _ =>
        .seq (within_onStore (hall.createSession _ _ _ _ _ _ _ _ fun _ _ _ => trivial).stays)
        fun _ => replyOk_fits (.bind (putStr_raises _) fun _ => .bind (putBytes_raises _) fun _ =>
          putBytes_raises _)
    | putChunk =>
      exact .seq (decode_fits <| .bind getStr_raises fun _ => .bind getU64_raises fun _ =>
        .bind getRest_raises fun _ => .pure _) fun _ =>
        .seq (within_onStore (getAllowedSession_fits _)) fun _ =>
        .seq (within_onStore (hall.putChunk _ _ rfl _ _ _)) fun _ =>
        replyOk_fits (.bind (putDigest_raises _) fun _ => putBytes_raises _)
    | queryUpload =>
      refine .seq (decode_fits getStr_raises) fun _ => .seq (within_onStore <|
        .seq (getAllowedSession_fits _) fun _ => .seq (hall.sessionProgress _) fun _ =>
        .pure trivial) fun _ => .ite (fun _ => .throw (fitting_of (by decide))) fun _ => ?_
      refine replyOk_fits (.bind (putBytes_raises _) fun _ => .bind (putBytes_raises _) fun _ => ?_)
      split
      · exact .throw (Error.of_fits (by decide))
      · exact .bind (putBytes_raises _) fun _ => putBytes_raises _
    | commitUpload =>
      exact .seq (decode_fits getStr_raises) fun _ => .seq (within_onStore <|
        .seq (getAllowedSession_fits _) fun _ =>
          hall.commitSession _ _ rfl _ fun h => hall.insertArtifact h) fun _ =>
        replyOk_fits (.bind (putRef_raises _) fun _ => .bind (putBytes_raises _) fun _ =>
          putDigest_raises _)
    | getArtifact =>
      exact .seq (requireRole_fits _) fun _ => .seq (decode_fits <| .bind getRef_raises fun _ =>
        .bind getU64_raises fun _ => .bind getU64_raises fun _ => .pure _) fun _ => startGet_fits
    | listArtifacts =>
      exact .seq (requireRole_fits _) fun _ => .seq (decode_fits <| .bind getOptStr_raises fun _ =>
        .bind getOptStr_raises fun _ => .bind getU32_raises fun _ => .bind getU32_raises fun _ =>
        .pure _) fun _ => .seq (within_onStore (hall.listArtifacts _ _ _ _)) fun _ =>
        replyOk_fits (encodeItems_raises fun _ => .bind (putStr_raises _) fun _ =>
          .bind (putStr_raises _) fun _ => .bind (putStr_raises _) fun _ =>
          .bind (putBytes_raises _) fun _ => .bind (putDigest_raises _) fun _ =>
          .bind (putStr_raises _) fun _ => putBytes_raises _)
    | showArtifact =>
      exact .seq (requireRole_fits _) fun _ => .seq (decode_fits getRef_raises) fun _ =>
        .seq (within_onStore (hall.showArtifact _ _ _)) fun _ =>
        replyOk_fits (.bind (putStr_raises _) fun _ => .bind (putStr_raises _) fun _ =>
          .bind (putStr_raises _) fun _ => .bind (putBytes_raises _) fun _ =>
          .bind (putDigest_raises _) fun _ => .bind (putBytes_raises _) fun _ =>
          .bind (putStr_raises _) fun _ => .bind (putBytes_raises _) fun _ =>
          .bind (putStr_raises _) fun _ => encodeItems_raises fun _ =>
            .bind (putBytes_raises _) fun _ => .bind (putBytes_raises _) fun _ =>
            .bind (putBytes_raises _) fun _ => putDigest_raises _)
    | status =>
      exact .seq (requireRole_fits _) fun _ => .seq (within_onStore <|
        .seq (within_select _) fun _ => .seq hall.usedBytes fun _ => .pure trivial) fun _ =>
        .seq (.lift fun _ _ => ⟨⟨trivial, trivial⟩, trivial⟩) fun _ =>
        replyOk_fits (.bind (putStr_raises _) fun _ => .bind (putBytes_raises _) fun _ =>
          .bind (putBytes_raises _) fun _ => .bind (putBytes_raises _) fun _ =>
          .bind (putBytes_raises _) fun _ => .bind (putBytes_raises _) fun _ =>
          .bind (putBytes_raises _) fun _ => putBytes_raises _)
    | deleteArtifact =>
      exact .seq (decode_fits getRef_raises) fun _ =>
        .seq (within_onStore (requireDeleteAllowed_fits _)) fun _ =>
        .seq (within_onStore (hall.deleteArtifact _ rfl _ _ _ hall.removeArtifact)) fun _ =>
        .seq (audit_fits _ _) fun _ => replyOk_fits (putBytes_raises _)
    | runGc =>
      exact .seq (requireRole_fits _) fun _ => .seq (decode_fits <| .bind (.bind getU8_raises
        fun _ => .pure _) fun _ => .pure _) fun _ =>
        .seq (within_onStore (hall.collectGarbage _ _ _)) fun _ => .seq (audit_fits _ _) fun _ =>
        replyOk_fits (.bind (putBytes_raises _) fun _ => .bind (putBytes_raises _) fun _ =>
          putBytes_raises _)
    | userAdd =>
      exact .seq (requireRole_fits _) fun _ => .seq (decode_fits <| .bind getStr_raises fun _ =>
        .bind getU8_raises fun _ => .pure _) fun _ =>
        .seq (registryUpdate_fits fun _ _ => userAdd_error) fun _ =>
        .seq (audit_fits _ _) fun _ => .pure trivial
    | userList =>
      exact .seq (requireRole_fits _) fun _ =>
        .seq (.lift fun _ _ => ⟨⟨trivial, trivial⟩, trivial⟩) fun _ =>
        replyOk_fits (encodeItems_raises fun _ => .bind (putStr_raises _) fun _ =>
          .bind (putBytes_raises _) fun _ => .bind (putBytes_raises _) fun _ => putBytes_raises _)
    | tokenRevoke =>
      exact .seq (requireRole_fits _) fun _ => .seq (decode_fits getU64_raises) fun _ =>
        .seq (registryUpdate_fits fun _ _ => tokenRevoke_error) fun _ =>
        .seq (audit_fits _ _) fun _ => .pure trivial
    | tokenList =>
      exact .seq (requireRole_fits _) fun _ => .seq (decode_fits getStr_raises) fun _ =>
        .seq (.lift fun _ _ => ⟨⟨trivial, trivial⟩, trivial⟩) fun _ =>
        replyOk_fits (encodeItems_raises fun _ => .bind (putBytes_raises _) fun _ =>
          .bind (putStr_raises _) fun _ => .bind (putBytes_raises _) fun _ =>
          .bind (putBytes_raises _) fun _ => putBytes_raises _)
    | sessionList =>
      exact .seq (requireRole_fits _) fun _ => .seq (within_onStore (within_select _)) fun _ =>
        replyOk_fits (encodeItems_raises fun _ => .bind (putStr_raises _) fun _ =>
          .bind (putStr_raises _) fun _ => .bind (putBytes_raises _) fun _ =>
          .bind (putStr_raises _) fun _ => .bind (putStr_raises _) fun _ =>
          .bind (putStr_raises _) fun _ => .bind (putBytes_raises _) fun _ => putBytes_raises _)
    | sessionAbort =>
      exact .seq (requireRole_fits _) fun _ => .seq (decode_fits getStr_raises) fun _ =>
        .seq (within_onStore (hall.abortSession _ rfl _)) fun _ => .seq (audit_fits _ _) fun _ =>
        .pure trivial

/-- The username that the request names is not in the registry, and `what()` of the error that says
so does not fit a reply. -/
def NamesLongUnknown (db : AuthDb) (session : ClientSession) (frame : FrFrame) : Prop :=
  requireRole session .admin = .ok () ∧ ∃ username,
    (FrMsgType.ofByte frame.type = some .userDisable ∧ decodeFrame getStr frame = .ok username ∨
      FrMsgType.ofByte frame.type = some .tokenCreate ∧ ∃ ttlHours,
        decodeFrame decodeTokenCreateReq frame = .ok ⟨username, ttlHours⟩) ∧
    (∀ u ∈ db.user, u.username ≠ username) ∧ 496 < (cString username).length

/-- The error of the registry for it. -/
def unknownUser (username : Bytes) : Error :=
  .ofMessage .eNotfound (ascii "user not found: " ++ username)

private theorem cString_ascii_append {text : String} (h : 0 ∉ ascii text) (rest : Bytes) :
    cString (ascii text ++ rest) = ascii text ++ cString rest := by
  unfold cString
  rw [List.takeWhile_append_of_pos]
  intro b hb
  exact decide_eq_true fun hzero => h (hzero ▸ hb)

private theorem unknownUser_fits_iff (username : Bytes) :
    (unknownUser username).Fits ↔ ¬ 496 < (cString username).length := by
  have htext : (ascii "user not found: ").length = 16 := by decide
  change (cString (ascii "user not found: " ++ username)).length ≤ 512 ↔ _
  rw [cString_ascii_append (by decide), List.length_append, htext]
  omega

private theorem userDisable_error (db : AuthDb) (username : Bytes) :
    (∀ u ∈ db.user, u.username ≠ username) ∧
        db.userDisable username = .error (unknownUser username) ∨
      (∃ u ∈ db.user, u.username = username) ∧ ∃ db', db.userDisable username = .ok db' := by
  unfold AuthDb.userDisable
  by_cases hknown : db.user.any (·.username == username) = true
  · rw [if_pos hknown]
    obtain ⟨u, hu, hname⟩ := List.any_eq_true.mp hknown
    exact .inr ⟨⟨u, hu, by simpa using hname⟩, _, rfl⟩
  · rw [if_neg hknown]
    refine .inl ⟨fun u hu hname => hknown (List.any_eq_true.mpr ⟨u, hu, by simpa using hname⟩), rfl⟩

/-- What a request throws, by whether its username is unknown and long. -/
inductive Thrown (long : Prop) : Error → Prop
  | fits {e : Error} (hlong : ¬ long) (hfits : e.Fits) : Thrown long e
  | arg (hlong : ¬ long) (what : Bytes) : Thrown long (.fr .eArg what)
  | unknown (hlong : long) {username : Bytes} (hfits : ¬ (unknownUser username).Fits) :
      Thrown long (unknownUser username)

/-- The texts of the exceptions that `handle` does not catch fit. -/
theorem Thrown.std {long : Prop} {what : Bytes} (h : Thrown long (.std what)) :
    what.length ≤ maxStringLen := by
  cases h with
  | fits _ hfits => exact hfits

private theorem thrown_unknownUser {long : Prop} {username : Bytes}
    (h : long ↔ 496 < (cString username).length) : Thrown long (unknownUser username) := by
  have hfits := unknownUser_fits_iff username
  rw [← h] at hfits
  by_cases hlong : long
  · exact .unknown hlong fun hf => hfits.mp hf hlong
  · exact .fits hlong (hfits.mpr hlong)

private theorem not_namesLongUnknown {db : AuthDb} (h : ¬ QuotesUsername frame) :
    ¬ NamesLongUnknown db session frame := by
  rintro ⟨-, username, ⟨htype, -⟩ | ⟨htype, -⟩, -⟩
  · exact h (.inl htype)
  · exact h (.inr htype)

private theorem run_admin_decode {β : Type} {dec : MsgDecoder α} {k : α → ServiceM β} {e : Error}
    (h : ((do
      Prog.ofExcept (requireRole session .admin)
      let req ← decode dec frame
      k req : ServiceM β).run s).1 = .error e) :
    requireRole session .admin = .error e ∨ decodeFrame dec frame = .error e ∨
      requireRole session .admin = .ok () ∧ ∃ req, decodeFrame dec frame = .ok req ∧
        ((k req).run s).1 = .error e := by
  cases hrole : requireRole session .admin with
  | error e' =>
    rw [hrole] at h
    obtain rfl : e' = e := Except.error.inj h
    exact .inl rfl
  | ok u =>
    rw [hrole] at h
    change ((decode dec frame >>= k).run s).1 = _ at h
    rw [decode] at h
    cases hdecode : decodeFrame dec frame with
    | error e' =>
      rw [hdecode] at h
      obtain rfl : e' = e := Except.error.inj h
      exact .inr (.inl rfl)
    | ok req =>
      rw [hdecode] at h
      exact .inr (.inr ⟨rfl, req, rfl, h⟩)

private theorem handleUserDisable_thrown {e : Error}
    (htype : FrMsgType.ofByte frame.type = some .userDisable)
    (h : ((handleUserDisable env session frame).run s).1 = .error e) :
    Thrown (NamesLongUnknown s.auth session frame) e := by
  rcases run_admin_decode h with herror | herror | ⟨hrole, username, hdecode, herror⟩
  · refine .fits (fun hlong => ?_) (requireRole_error herror)
    cases hlong.1.symm.trans herror
  · refine .fits (fun hlong => ?_) (decodeFrame_raises getStr_raises herror)
    obtain ⟨-, username, ⟨-, hdecode⟩ | ⟨htype', -⟩, -⟩ := hlong
    · cases hdecode.symm.trans herror
    · cases htype.symm.trans htype'
  · rw [run_bind, registryUpdate, run_lift] at herror
    rcases userDisable_error s.auth username with ⟨hunknown, hrun⟩ | ⟨-, auth, hrun⟩
    · rw [hrun] at herror
      cases herror
      refine thrown_unknownUser ⟨fun hlong => ?_, fun hlen =>
        ⟨hrole, username, .inl ⟨htype, hdecode⟩, hunknown, hlen⟩⟩
      obtain ⟨-, username', ⟨-, hdecode'⟩ | ⟨htype', -⟩, -, hlen⟩ := hlong
      · obtain rfl : username = username' := Except.ok.inj (hdecode.symm.trans hdecode')
        exact hlen
      · cases htype.symm.trans htype'
    · rw [hrun] at herror
      cases herror

private theorem tokenCreate_error (sha : Sha256) (db : AuthDb) (now : Int64)
    (random username : Bytes) (ttlHours : UInt32) :
    (∀ u ∈ db.user, u.username ≠ username) ∧
        db.tokenCreate sha now random username ttlHours = .error (unknownUser username) ∨
      (∃ u ∈ db.user, u.username = username) ∧
        ∀ e, db.tokenCreate sha now random username ttlHours = .error e →
          e.Fits ∨ ∃ what, e = .fr .eArg what := by
  unfold AuthDb.tokenCreate
  cases hfound : db.user.find? (·.username == username) with
  | none =>
    refine .inl ⟨fun u hu hname => ?_, rfl⟩
    simpa [hname] using List.find?_eq_none.mp hfound u hu
  | some user =>
    refine .inr ⟨⟨user, List.mem_of_find?_eq_some hfound, by simpa using List.find?_some hfound⟩,
      fun e he => ?_⟩
    dsimp only at he
    split at he
    · cases he
      exact .inr ⟨_, rfl⟩
    split at he
    · cases he
      exact .inl (Error.of_fits (by decide))
    split at he
    · cases he
    · cases he
      exact .inl (Error.of_fits (by decide))

private theorem decodeTokenCreateReq_raises : Raises Error.Fits decodeTokenCreateReq :=
  .bind getStr_raises fun _ => .bind getU32_raises fun _ => .pure _

private theorem handleTokenCreate_thrown {e : Error}
    (htype : FrMsgType.ofByte frame.type = some .tokenCreate)
    (h : ((handleTokenCreate sha env session frame).run s).1 = .error e) :
    Thrown (NamesLongUnknown s.auth session frame) e := by
  rcases run_admin_decode h with herror | herror | ⟨hrole, req, hdecode, herror⟩
  · refine .fits (fun hlong => ?_) (requireRole_error herror)
    cases hlong.1.symm.trans herror
  · refine .fits (fun hlong => ?_) (decodeFrame_raises decodeTokenCreateReq_raises herror)
    obtain ⟨-, username, ⟨htype', -⟩ | ⟨-, ttlHours, hdecode⟩, -⟩ := hlong
    · cases htype.symm.trans htype'
    · cases hdecode.symm.trans herror
  have hlong : NamesLongUnknown s.auth session frame ↔
      (∀ u ∈ s.auth.user, u.username ≠ req.username) ∧ 496 < (cString req.username).length := by
    constructor
    · rintro ⟨-, username, ⟨htype', -⟩ | ⟨-, ttlHours, hdecode'⟩, hunknown, hlen⟩
      · cases htype.symm.trans htype'
      · obtain rfl : req = ⟨username, ttlHours⟩ := Except.ok.inj (hdecode.symm.trans hdecode')
        exact ⟨hunknown, hlen⟩
    · rintro ⟨hunknown, hlen⟩
      exact ⟨hrole, req.username, .inr ⟨htype, req.ttlHours, hdecode⟩, hunknown, hlen⟩
  rw [run_bind, registryUpdate, run_lift] at herror
  rcases tokenCreate_error sha s.auth env.call.now env.random req.username req.ttlHours with
    ⟨hunknown, hrun⟩ | ⟨⟨u, hu, hname⟩, hrun⟩
  · rw [hrun] at herror
    cases herror
    exact thrown_unknownUser ⟨fun h => (hlong.mp h).2, fun hlen => hlong.mpr ⟨hunknown, hlen⟩⟩
  · have hshort : ¬ NamesLongUnknown s.auth session frame := fun h => (hlong.mp h).1 u hu hname
    cases hcreate : s.auth.tokenCreate sha env.call.now env.random req.username req.ttlHours with
    | error e' =>
      rw [hcreate] at herror
      cases herror
      rcases hrun e hcreate with hfits | ⟨what, rfl⟩
      · exact .fits hshort hfits
      · exact .arg hshort what
    | ok r =>
      rw [hcreate] at herror
      have hrest : Stays fitting (audit env session (ascii "token.create") req.username >>=
          fun _ => replyOk frame (encodeTokenCreateOk ⟨r.1⟩)) :=
        .seq (audit_fits _ _) fun _ => replyOk_fits (putStr_raises _)
      exact .fits hshort (fits_of_stays hrest herror)

private theorem verifyAuth_fits : Stays fitting (verifyAuth sha env peer frame) := by
  refine .seq (.lift fun s _ => ?_) fun _ => .seq (decode_fits (.bind getStr_raises fun _ =>
    .pure _)) fun req => .lift fun s _ => ⟨⟨trivial, trivial⟩, ?_⟩
  · split
    · split
      · exact ⟨⟨trivial, trivial⟩, fitting_of (by decide)⟩
      · exact ⟨⟨trivial, trivial⟩, trivial⟩
    · exact ⟨⟨trivial, trivial⟩, trivial⟩
  · dsimp only
    cases hverify : s.auth.verify sha env.call.now req.token with
    | ok ok => trivial
    | error e =>
      obtain ⟨what, rfl, hlen, -⟩ := AuthDb.verify_error hverify
      exact hlen

private theorem handleFrame_fits {session' : ClientSession} {e : Error} {s' : Service}
    (hbusiness : frame.isBusiness = false)
    (h : (handleFrame sha env connId peer session frame).run s = (.ok (session', .error e), s')) :
    e.Fits := by
  have hreply {enc : MsgEncoder} (henc : Raises Error.Fits enc)
      (he : (payloadOf enc).map (makeOk frame) = .error e) : e.Fits := by
    cases hpayload : payloadOf enc with
    | ok payload =>
      rw [hpayload] at he
      cases he
    | error e' =>
      rw [hpayload] at he
      cases he
      exact payloadOf_raises henc hpayload
  unfold handleFrame at h
  split at h
  · split at h
    · exact hreply (putStr_raises serverVersion)
        (congrArg Prod.snd (Except.ok.inj (congrArg Prod.fst h)))
    · rename_i e' hdecode
      cases h
      refine decodeFrame_raises (.bind getU8_raises fun _ => ?_) hdecode
      split
      · exact .throw (protocolError_fits (by decide))
      · exact .bind getStr_raises fun _ => .pure _
  · rw [run_bind, outcome_run] at h
    rcases hverify : (verifyAuth sha env peer frame).run s with ⟨e' | ok, s₁⟩
    · rw [hverify] at h
      cases h
      exact fits_of_stays verifyAuth_fits (congrArg Prod.fst hverify)
    · rw [hverify] at h
      exact hreply (.bind (putStr_raises _) fun _ => putBytes_raises _)
        (congrArg Prod.snd (Except.ok.inj (congrArg Prod.fst h)))
  · have hping := congrArg Prod.snd (Except.ok.inj (congrArg Prod.fst h))
    cases hdecode : decodeFrame decodeData frame with
    | ok data =>
      rw [hdecode] at hping
      cases hping
    | error e' =>
      rw [hdecode] at hping
      cases hping
      exact decodeFrame_raises (.bind getRest_raises fun _ => .pure _) hdecode
  · cases h
  · rename_i hhello hauth hping hclose
    unfold FrFrame.isBusiness at hbusiness
    split at hbusiness <;> simp_all

theorem handleFrame_thrown {session' : ClientSession} {e : Error} {s' : Service}
    (h : (handleFrame sha env connId peer session frame).run s = (.ok (session', .error e), s')) :
    Thrown (NamesLongUnknown s.auth session frame) e := by
  cases hbusiness : frame.isBusiness with
  | true =>
    rw [handleFrame_business hbusiness, run_bind, outcome_run] at h
    have hresult : ((if session.authenticated = false then
        MonadExcept.throw (.of .eUnauthenticated "authentication required")
        else dispatchBusiness sha env connId session frame : ServiceM HandleResult).run s).1 =
          .error e := congrArg Prod.snd (Except.ok.inj (congrArg Prod.fst h))
    split at hresult
    · rename_i hauth
      cases hresult
      refine .fits (fun hlong => ?_) (Error.of_fits (by decide))
      have hrole := hlong.1
      rw [requireRole, if_pos hauth] at hrole
      cases hrole
    · by_cases hquotes : QuotesUsername frame
      · unfold dispatchBusiness at hresult
        rcases hquotes with htype | htype
        · rw [htype] at hresult
          exact handleUserDisable_thrown htype hresult
        · rw [htype] at hresult
          exact handleTokenCreate_thrown htype hresult
      · exact .fits (not_namesLongUnknown hquotes)
          (fits_of_stays (dispatchBusiness_fits hquotes) hresult)
  | false =>
    have hquotes : ¬ QuotesUsername frame := by
      rintro (htype | htype) <;>
      · rw [FrFrame.isBusiness, htype] at hbusiness
        cases hbusiness
    exact .fits (not_namesLongUnknown hquotes) (handleFrame_fits hbusiness h)

end

end ForgeRelay
