import ForgeRelay.Service.Downloads
import ForgeRelay.Service.ErrorTexts

/-!
# The sizes of replies

The strings of a message have limits of their own, and so has the bitmap of QUERY_UPLOAD. Only an
answer that is a list can be larger than a frame.
-/

namespace ForgeRelay

open Program Prog Codec

section Fields

private theorem putU8_sized (value : UInt8) : Sized True 1 (putU8 value) := putBytes_sized [value]

private theorem putU32_sized (value : UInt32) : Sized True 4 (putU32 value) :=
  (putBytes_sized _).of_iff .rfl (frStoreBe32_length value)

private theorem putU64_sized (value : UInt64) : Sized True 8 (putU64 value) :=
  (putBytes_sized _).of_iff .rfl (frStoreBe64_length value)

private theorem putDigest_sized (hex : Bytes) :
    Sized (hex.length = digestHexLen) digestHexLen (putDigest hex) := by
  unfold putDigest
  by_cases hlen : hex.length = digestHexLen
  · rw [if_neg (not_not.mpr hlen)]
    exact (putBytes_sized hex).of_iff (iff_of_true trivial hlen) hlen
  · rw [if_pos hlen]
    exact fun out => ⟨fun h => absurd h hlen, fun _ => ⟨_, rfl⟩⟩

private theorem encodeItems_sized {α : Type} {item : α → MsgEncoder} {fits : α → Prop}
    {size : α → Nat} (hitem : ∀ x, Sized (fits x) (size x) (item x)) (items : List α) :
    Sized (∀ x ∈ items, fits x) (4 + (items.map size).sum) (encodeItems item items) :=
  ((putU32_sized _).bind (.items hitem items)).of_iff (iff_of_eq (true_and _)) rfl

end Fields

section Items

/-- The strings and the digest can be written. -/
structure ArtifactSummary.Encodable (item : ArtifactSummary) : Prop where
  ns : item.ns.length ≤ maxStringLen
  name : item.name.length ≤ maxStringLen
  version : item.version.length ≤ maxStringLen
  digest : item.digest.length = digestHexLen
  creator : item.creator.length ≤ maxStringLen

/-- The bytes of an item of LIST_ARTIFACTS. -/
def ArtifactSummary.wireSize (item : ArtifactSummary) : Nat :=
  88 + item.ns.length + item.name.length + item.version.length + item.creator.length

/-- The strings can be written. -/
structure SessionItem.Encodable (item : SessionItem) : Prop where
  sessionId : item.sessionId.length ≤ maxStringLen
  owner : item.owner.length ≤ maxStringLen
  ns : item.ns.length ≤ maxStringLen
  name : item.name.length ≤ maxStringLen
  version : item.version.length ≤ maxStringLen

/-- The bytes of an item of SESSION_LIST. -/
def SessionItem.wireSize (item : SessionItem) : Nat :=
  27 + item.sessionId.length + item.owner.length + item.ns.length + item.name.length +
    item.version.length

/-- The strings and the digests can be written. -/
structure ArtifactInfo.Encodable (info : ArtifactInfo) : Prop where
  ns : info.ns.length ≤ maxStringLen
  name : info.name.length ≤ maxStringLen
  version : info.version.length ≤ maxStringLen
  digest : info.digest.length = digestHexLen
  creator : info.creator.length ≤ maxStringLen
  note : info.note.length ≤ maxStringLen
  chunks : ∀ entry ∈ info.chunks, entry.digest.length = digestHexLen

/-- The bytes of the answer to SHOW_ARTIFACT. -/
def ArtifactInfo.wireSize (info : ArtifactInfo) : Nat :=
  102 + info.ns.length + info.name.length + info.version.length + info.creator.length +
    info.note.length + 84 * info.chunks.length

private theorem artifactSummary_sized (item : ArtifactSummary) :
    Sized item.Encodable item.wireSize (encodeArtifactSummary item) := by
  refine ((putStr_sized _).bind ((putStr_sized _).bind ((putStr_sized _).bind
    ((putU64_sized _).bind ((putDigest_sized _).bind ((putStr_sized _).bind
      (putU64_sized _))))))).of_iff ?_ ?_
  · constructor
    · rintro ⟨hns, hname, hversion, -, hdigest, hcreator, -⟩
      exact ⟨hns, hname, hversion, hdigest, hcreator⟩
    · rintro ⟨hns, hname, hversion, hdigest, hcreator⟩
      exact ⟨hns, hname, hversion, trivial, hdigest, hcreator, trivial⟩
  · rw [ArtifactSummary.wireSize, digestHexLen]
    omega

private theorem userItem_sized (item : UserItem) : Sized (item.username.length ≤ maxStringLen)
    (12 + item.username.length) (encodeUserItem item) := by
  refine ((putStr_sized _).bind ((putU8_sized _).bind ((putU8_sized _).bind
    (putU64_sized _)))).of_iff ?_ (by omega)
  simp

private theorem tokenItem_sized (item : TokenItem) : Sized (item.username.length ≤ maxStringLen)
    (27 + item.username.length) (encodeTokenItem item) := by
  refine ((putU64_sized _).bind ((putStr_sized _).bind ((putU64_sized _).bind
    ((putU64_sized _).bind (putU8_sized _))))).of_iff ?_ (by omega)
  simp

private theorem sessionItem_sized (item : SessionItem) :
    Sized item.Encodable item.wireSize (encodeSessionItem item) := by
  refine ((putStr_sized _).bind ((putStr_sized _).bind ((putU8_sized _).bind
    ((putStr_sized _).bind ((putStr_sized _).bind ((putStr_sized _).bind
      ((putU64_sized _).bind (putU64_sized _)))))))).of_iff ?_ ?_
  · constructor
    · rintro ⟨hid, howner, -, hns, hname, hversion, -⟩
      exact ⟨hid, howner, hns, hname, hversion⟩
    · rintro ⟨hid, howner, hns, hname, hversion⟩
      exact ⟨hid, howner, trivial, hns, hname, hversion, trivial, trivial⟩
  · rw [SessionItem.wireSize]
    omega

private theorem manifestEntry_sized (entry : ManifestEntry) :
    Sized (entry.digest.length = digestHexLen) 84 (encodeManifestEntry entry) := by
  refine ((putU32_sized _).bind ((putU64_sized _).bind ((putU64_sized _).bind
    (putDigest_sized _)))).of_iff ?_ rfl
  simp

private theorem artifactInfo_sized (info : ArtifactInfo) :
    Sized info.Encodable info.wireSize (encodeShowArtifactOk ⟨info⟩) := by
  refine ((putStr_sized _).bind ((putStr_sized _).bind ((putStr_sized _).bind
    ((putU64_sized _).bind ((putDigest_sized _).bind ((putU64_sized _).bind
      ((putStr_sized _).bind ((putU64_sized _).bind ((putStr_sized _).bind
        (encodeItems_sized manifestEntry_sized _)))))))))).of_iff ?_ ?_
  · constructor
    · rintro ⟨hns, hname, hversion, -, hdigest, -, hcreator, -, hnote, hchunks⟩
      exact ⟨hns, hname, hversion, hdigest, hcreator, hnote, hchunks⟩
    · rintro ⟨hns, hname, hversion, hdigest, hcreator, hnote, hchunks⟩
      exact ⟨hns, hname, hversion, trivial, hdigest, trivial, hcreator, trivial, hnote, hchunks⟩
  · rw [ArtifactInfo.wireSize, digestHexLen, List.map_const', List.sum_replicate_nat]
    dsimp only
    omega

end Items

section Listings

/-- The rows that a list request asks for take no more than a frame, or one of them cannot be
written. -/
def ListingFits (session : ClientSession) (frame : FrFrame) (s : Service) : Prop :=
  match FrMsgType.ofByte frame.type with
  | some .listArtifacts => requireRole session .reader = .ok () →
      ∀ req, decodeFrame decodeListArtifactsReq frame = .ok req →
      ∀ items, ((listArtifacts req.ns req.name req.limit.toUInt64.toInt64
        req.offset.toUInt64.toInt64).run s.store).1 = .ok items →
      (∀ item ∈ items.map (·.summary), item.Encodable) →
      4 + ((items.map (·.summary)).map (·.wireSize)).sum ≤ frFrameMaxPayload
  | some .showArtifact => requireRole session .reader = .ok () →
      ∀ ref, decodeFrame decodeRef frame = .ok ref →
      ∀ info, ((showArtifact ref.ns ref.name ref.version).run s.store).1 = .ok info →
      info.Encodable → info.wireSize ≤ frFrameMaxPayload
  | some .userList => requireRole session .admin = .ok () →
      (∀ item ∈ s.auth.userList, item.username.length ≤ maxStringLen) →
      4 + (s.auth.userList.map (12 + ·.username.length)).sum ≤ frFrameMaxPayload
  | some .tokenList => requireRole session .admin = .ok () →
      ∀ username, decodeFrame getStr frame = .ok username →
      (∀ item ∈ s.auth.tokenList username, item.username.length ≤ maxStringLen) →
      4 + ((s.auth.tokenList username).map (27 + ·.username.length)).sum ≤ frFrameMaxPayload
  | some .sessionList => requireRole session .admin = .ok () →
      ∀ sessions, ((listSessions none).run s.store).1 = .ok sessions →
      (∀ item ∈ sessions.map (·.item), item.Encodable) →
      4 + ((sessions.map (·.item)).map (·.wireSize)).sum ≤ frFrameMaxPayload
  | _ => True

/-- An error, or one OK frame, whose payload fits if and only if `small`. -/
def ReplyIff (frame : FrFrame) (small : Prop) : Except Error HandleResult → Prop
  | .error _ => small
  | .ok result => ∃ payload close,
      result = { makeOk frame payload with closeConnection := close } ∧
        (small ↔ payload.length ≤ frFrameMaxPayload)

private theorem ReplyIff.of_iff {frame : FrFrame} {small small' : Prop}
    {r : Except Error HandleResult} (h : ReplyIff frame small r) (hiff : small ↔ small') :
    ReplyIff frame small' r := by
  rwa [← hiff]

private theorem payloadOf_replyIff {frame : FrFrame} {fits : Prop} {n : Nat} {enc : MsgEncoder}
    (h : Sized fits n enc) :
    ReplyIff frame (fits → n ≤ frFrameMaxPayload) ((payloadOf enc).map (makeOk frame)) := by
  by_cases hfits : fits
  · obtain ⟨payload, hpayload, hlen⟩ := (payloadOf_sized h).1 hfits
    rw [hpayload]
    refine ⟨payload, false, rfl, ?_⟩
    rw [hlen]
    exact ⟨fun hle => hle hfits, fun hle _ => hle⟩
  · obtain ⟨e, herror⟩ := (payloadOf_sized h).2 hfits
    rw [herror]
    exact fun h => absurd h hfits

/-- The program ends so. -/
def RepliesIff (frame : FrFrame) (s : Service) (p : ServiceM HandleResult) (small : Prop) : Prop :=
  ReplyIff frame small (p.run s).1

namespace RepliesIff

variable {α : Type} {frame : FrFrame} {s : Service} {small : Prop}

private theorem throw (e : Error) :
    RepliesIff frame s (MonadExcept.throw e : ServiceM HandleResult) True := trivial

private theorem okEmpty : RepliesIff frame s (Pure.pure (ForgeRelay.okEmpty frame)) True :=
  ⟨[], false, rfl, iff_of_true trivial (Nat.zero_le _)⟩

private theorem of_iff {small' : Prop} {p : ServiceM HandleResult} (h : RepliesIff frame s p small)
    (hiff : small ↔ small') : RepliesIff frame s p small' := by
  rwa [← hiff]

private theorem replyOk {fits : Prop} {n : Nat} {enc : MsgEncoder} (h : Sized fits n enc) :
    RepliesIff frame s (ForgeRelay.replyOk frame enc) (fits → n ≤ frFrameMaxPayload) := by
  have hrun : ((ForgeRelay.replyOk frame enc).run s).1 = (payloadOf enc).map (makeOk frame) := by
    rw [ForgeRelay.replyOk]
    cases payloadOf enc <;> rfl
  rw [RepliesIff, hrun]
  exact payloadOf_replyIff h

/-- An answer of strings and numbers is small. -/
private theorem replyOk_small {fits : Prop} {n : Nat} {enc : MsgEncoder} (h : Sized fits n enc)
    (hn : fits → n ≤ frFrameMaxPayload) : RepliesIff frame s (ForgeRelay.replyOk frame enc) True :=
  (replyOk h).of_iff (iff_of_true hn trivial)

private theorem bind {p : ServiceM α} {k : α → ServiceM HandleResult}
    (hk : ∀ a s', RepliesIff frame s' (k a) True) : RepliesIff frame s (p >>= k) True := by
  unfold RepliesIff
  rw [run_bind]
  rcases p.run s with ⟨e | a, s'⟩
  · trivial
  · exact hk a s'

private theorem ofExcept_bind {r : Except Error α} {k : α → ServiceM HandleResult}
    {small : α → Prop} (hk : ∀ a, RepliesIff frame s (k a) (small a)) :
    RepliesIff frame s (Prog.ofExcept r >>= k) (∀ a, r = .ok a → small a) := by
  cases r with
  | error e => exact fun a h => by cases h
  | ok a => exact (hk a).of_iff ⟨fun h a' ha => by cases ha; exact h, fun h => h a rfl⟩

private theorem require_bind {r : Except Error Unit} {k : Unit → ServiceM HandleResult}
    (hk : RepliesIff frame s (k ()) small) :
    RepliesIff frame s (Prog.ofExcept r >>= k) (r = .ok () → small) :=
  (ofExcept_bind fun _ => hk).of_iff ⟨fun h => h (), fun h _ => h⟩

private theorem locked_bind {q : StorageM α} {k : α → ServiceM HandleResult} {small : α → Prop}
    (hk : ∀ a s', RepliesIff frame s' (k a) (small a)) :
    RepliesIff frame s (locked q >>= k) (∀ a, (q.run s.store).1 = .ok a → small a) := by
  unfold RepliesIff
  rw [run_bind, locked, onStore, run_lift]
  rcases q.run s.store with ⟨e | a, store⟩
  · exact fun a h => by cases h
  · exact (hk a _).of_iff ⟨fun h a' ha => by cases ha; exact h, fun h => h a rfl⟩

private theorem registry_bind {f : AuthDb → α} {k : α → ServiceM HandleResult} {small : α → Prop}
    (hk : ∀ a s', RepliesIff frame s' (k a) (small a)) :
    RepliesIff frame s (registry (fun auth => .ok (f auth)) >>= k) (small (f s.auth)) := by
  unfold RepliesIff
  rw [run_bind, registry, run_lift]
  exact hk _ s

end RepliesIff

variable {sha : Sha256} {env : RequestEnv} {connId : Nat} {peer : Bytes} {session : ClientSession}
  {frame : FrFrame} {s s' : Service}

private theorem queryUploadOk_sized (ok : QueryUploadOk) :
    Sized (ok.presentBitmap.length ≤ maxBitmapLen) (13 + ok.presentBitmap.length)
      (encodeQueryUploadOk ok) := by
  by_cases hlen : ok.presentBitmap.length ≤ maxBitmapLen
  · have hrest : Sized True (4 + ok.presentBitmap.length)
        (if maxBitmapLen < ok.presentBitmap.length then
          MonadExcept.throw (.of .eRange "present bitmap exceeds 1 MiB protocol limit")
        else do
          putU32 (UInt32.ofNat ok.presentBitmap.length)
          putBytes ok.presentBitmap) := by
      rw [if_neg (Nat.not_lt.mpr hlen)]
      exact ((putU32_sized _).bind (putBytes_sized _)).of_iff (iff_of_eq (and_true _)) rfl
    exact ((putU8_sized _).bind ((putU64_sized _).bind hrest)).of_iff (by simp [hlen]) (by omega)
  · intro out
    refine ⟨fun h => absurd h hlen, fun _ => ⟨.of .eRange
      "present bitmap exceeds 1 MiB protocol limit", ?_⟩⟩
    rw [encodeQueryUploadOk, if_pos (Nat.not_le.mp hlen)]
    rfl

private theorem dispatchBusiness_repliesIff
    (htype : FrMsgType.ofByte frame.type ≠ some .getArtifact) :
    RepliesIff frame s (dispatchBusiness sha env connId session frame)
      (ListingFits session frame s) := by
  have hmax : 8 * maxStringLen + maxBitmapLen + digestHexLen + 100 ≤ frFrameMaxPayload := by decide
  unfold dispatchBusiness ListingFits
  cases htype' : FrMsgType.ofByte frame.type with
  | none => exact .throw _
  | some type =>
    cases type with
    | hello | auth | ping | close | data | ok | error => exact .throw _
    | getArtifact => exact absurd htype' htype
    | createUpload =>
      exact .bind fun _ _ => .bind fun _ _ => .bind fun created _ => .replyOk_small
        ((putStr_sized _).bind ((putU64_sized _).bind (putU64_sized _))) fun ⟨hid, _⟩ => by omega
    | putChunk =>
      exact .bind fun _ _ => .bind fun _ _ => .bind fun accept _ => .replyOk_small
        ((putDigest_sized _).bind (putU8_sized _)) fun _ => by omega
    | queryUpload =>
      refine .bind fun _ _ => .bind fun x _ => ?_
      dsimp only
      split
      · exact .throw _
      · exact .replyOk_small (queryUploadOk_sized _) fun _ => by omega
    | commitUpload =>
      exact .bind fun _ _ => .bind fun _ _ => .replyOk_small
        (((putStr_sized _).bind ((putStr_sized _).bind (putStr_sized _))).bind
          ((putU64_sized _).bind (putDigest_sized _)))
        fun ⟨⟨hns, hname, hversion⟩, _⟩ => by omega
    | abortUpload => exact .bind fun _ _ => .bind fun _ _ => .okEmpty
    | listArtifacts =>
      exact .require_bind <| .ofExcept_bind fun req => .locked_bind fun items _ =>
        .replyOk (encodeItems_sized artifactSummary_sized _)
    | showArtifact =>
      exact .require_bind <| .ofExcept_bind fun req => .locked_bind fun info _ =>
        .replyOk (artifactInfo_sized info)
    | status =>
      exact .bind fun _ _ => .bind fun _ _ => .bind fun _ _ => .replyOk_small
        ((putStr_sized _).bind ((putU64_sized _).bind ((putU32_sized _).bind
          ((putU32_sized _).bind ((putU64_sized _).bind ((putU64_sized _).bind
            ((putU64_sized _).bind (putU8_sized _)))))))) fun ⟨hversion, _⟩ => by omega
    | deleteArtifact =>
      exact .bind fun _ _ => .bind fun _ _ => .bind fun _ _ => .bind fun _ _ =>
        .replyOk_small (putU64_sized _) fun _ => by omega
    | runGc =>
      exact .bind fun _ _ => .bind fun _ _ => .bind fun _ _ => .bind fun _ _ => .replyOk_small
        ((putU64_sized _).bind ((putU64_sized _).bind (putU64_sized _))) fun _ => by omega
    | userAdd | userDisable | tokenRevoke | sessionAbort =>
      exact .bind fun _ _ => .bind fun _ _ => .bind fun _ _ => .bind fun _ _ => .okEmpty
    | userList =>
      exact .require_bind <| .registry_bind fun items _ =>
        .replyOk (encodeItems_sized userItem_sized _)
    | tokenCreate =>
      exact .bind fun _ _ => .bind fun _ _ => .bind fun _ _ => .bind fun _ _ =>
        .replyOk_small (putStr_sized _) fun _ => by omega
    | tokenList =>
      exact .require_bind <| .ofExcept_bind fun username => .registry_bind fun items _ =>
        .replyOk (encodeItems_sized tokenItem_sized _)
    | sessionList =>
      exact .require_bind <| .locked_bind fun sessions _ =>
        .replyOk (encodeItems_sized sessionItem_sized _)

/-- Before authentication nothing is listed. -/
private theorem listingFits_of_unauthenticated (hauth : session.authenticated = false) :
    ListingFits session frame s := by
  have hnone : ∀ required, requireRole session required ≠ .ok () := by
    intro required hrole
    rw [requireRole, if_pos hauth] at hrole
    cases hrole
  unfold ListingFits
  split
  · exact fun hrole => absurd hrole (hnone _)
  · exact fun hrole => absurd hrole (hnone _)
  · exact fun hrole => absurd hrole (hnone _)
  · exact fun hrole => absurd hrole (hnone _)
  · exact fun hrole => absurd hrole (hnone _)
  · trivial

private theorem listingFits_of_not_business (hbusiness : frame.isBusiness = false) :
    ListingFits session frame s := by
  unfold FrFrame.isBusiness at hbusiness
  unfold ListingFits
  split at hbusiness <;> simp_all

/-- Whatever is sent, the reply is an error or one OK frame, and only an answer that is a list can
be too large for it. -/
theorem handleFrame_replyIff {session' : ClientSession} {r : Except Error HandleResult}
    (htype : FrMsgType.ofByte frame.type ≠ some .getArtifact)
    (h : (handleFrame sha env connId peer session frame).run s = (.ok (session', r), s')) :
    ReplyIff frame (ListingFits session frame s) r := by
  have hmax : 2 * maxStringLen + 100 ≤ frFrameMaxPayload := by decide
  cases hbusiness : frame.isBusiness with
  | true =>
    rw [handleFrame_business hbusiness, run_bind, outcome_run] at h
    have hresult : ((if session.authenticated = false then
        MonadExcept.throw (.of .eUnauthenticated "authentication required")
        else dispatchBusiness sha env connId session frame : ServiceM HandleResult).run s).1 = r :=
      congrArg Prod.snd (Except.ok.inj (congrArg Prod.fst h))
    subst hresult
    split
    · exact listingFits_of_unauthenticated ‹_›
    · exact dispatchBusiness_repliesIff htype
  | false =>
    have hfits : ListingFits session frame s := listingFits_of_not_business hbusiness
    have hreply {fits : Prop} {n : Nat} {enc : MsgEncoder} (henc : Sized fits n enc)
        (hn : fits → n ≤ frFrameMaxPayload) :
        ReplyIff frame (ListingFits session frame s) ((payloadOf enc).map (makeOk frame)) :=
      (payloadOf_replyIff henc).of_iff (iff_of_true hn hfits)
    unfold handleFrame at h
    split at h
    · split at h
      · obtain rfl : (payloadOf (putStr serverVersion)).map (makeOk frame) = r :=
          congrArg Prod.snd (Except.ok.inj (congrArg Prod.fst h))
        exact hreply (putStr_sized serverVersion) fun _ => by omega
      · cases h
        exact hfits
    · rw [run_bind, outcome_run] at h
      rcases hverify : (verifyAuth sha env peer frame).run s with ⟨e | ok, s₁⟩
      · rw [hverify] at h
        cases h
        exact hfits
      · rw [hverify] at h
        obtain rfl : (payloadOf (encodeAuthOk ok)).map (makeOk frame) = r :=
          congrArg Prod.snd (Except.ok.inj (congrArg Prod.fst h))
        exact hreply ((putStr_sized _).bind (putU8_sized _)) fun ⟨_, _⟩ => by omega
    · obtain rfl : (decodeFrame decodeData frame).map (fun _ => okEmpty frame) = r :=
        congrArg Prod.snd (Except.ok.inj (congrArg Prod.fst h))
      cases decodeFrame decodeData frame with
      | error e => exact hfits
      | ok data => exact ⟨[], false, rfl, iff_of_true hfits (Nat.zero_le _)⟩
    · cases h
      exact ⟨[], true, rfl, iff_of_true hfits (Nat.zero_le _)⟩
    · rename_i hhello hauth hping hclose
      unfold FrFrame.isBusiness at hbusiness
      split at hbusiness <;> simp_all

end Listings

end ForgeRelay
