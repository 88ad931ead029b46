import ForgeRelay.Client.Rounds
import ForgeRelay.Client.Upload
import ForgeRelay.Storage.SessionTerms

/-!
# Uploads from end to end

`frctl upload` that succeeds has published the file: whatever else the server does in between, and
whatever becomes of the file while it is read.
-/

namespace ForgeRelay

open Program Prog

variable {sha : Sha256} {contents leaked : Set Bytes}

/-- A full read of the artifact gives this content. -/
def Store.Delivers (s : Store) (ref : ArtifactRef) (content : Bytes) : Prop :=
  ∀ length : UInt64, content.length ≤ length.toNat →
    (readArtifact ref.ns ref.name ref.version 0 length).run s = (.ok content, s)

section Requests

variable {env : RequestEnv} {connId : Nat} {session : ClientSession} {frame reply : FrFrame}
  {result : HandleResult} {s s' : Service}

private theorem createUpload_granted {req : CreateUploadReq} {ok : CreateUploadOk}
    (htype : frame.type = FrMsgType.createUpload.toByte)
    (hpayload : payloadOf (encodeCreateUploadReq req) = .ok frame.payload)
    (hinv : StoreInv sha contents leaked s.store)
    (h : (dispatchBusiness sha env connId session frame).run s = (.ok result, s'))
    (hout : result.out = [reply]) (hanswer : decodeFrame decodeCreateUploadOk reply = .ok ok) :
    ∃ created, created.id = ok.sessionId ∧ KeepsTerms created s'.store ∧
      ∃ cfg env owner, created = newSession cfg env req.ref.ns req.ref.name req.ref.version
        req.expectedSize req.expectedDigest owner := by
  rw [dispatchBusiness, htype, FrMsgType.ofByte_toByte] at h
  obtain ⟨_, s₁, hrole, h₁⟩ := run_bind_ok h
  obtain ⟨-, rfl⟩ := run_ofExcept_ok hrole
  obtain ⟨req', s₂, hdecode, h₂⟩ := run_bind_ok h₁
  obtain ⟨rfl, rfl⟩ := decode_ok (createUploadReq_roundTrips req) hpayload hdecode
  obtain ⟨created, s₃, hcreate, h₃⟩ := run_bind_ok h₂
  obtain ⟨henc, rfl⟩ := replyOk_answer h₃ hout
  obtain ⟨hnew, hkeeps⟩ := createSession_keepsTerms hinv (onStore_ok hcreate)
  rw [decodeFrame_of_roundTrips (createUploadOk_roundTrips _) henc, Except.ok.injEq] at hanswer
  exact ⟨created, by rw [← hanswer], hkeeps, _, _, _, hnew⟩

private theorem commitUpload_granted {sessionId : Bytes} {created : SessionInfo}
    (htype : frame.type = FrMsgType.commitUpload.toByte)
    (hpayload : payloadOf (putStr sessionId) = .ok frame.payload) (hid : created.id = sessionId)
    (hkeeps : KeepsTerms created s.store)
    (h : (dispatchBusiness sha env connId session frame).run s = (.ok result, s'))
    (hout : result.out = [reply]) :
    ∃ now id, { created.artifactRow now with id := id } ∈ s'.store.db.artifact := by
  rw [dispatchBusiness, htype, FrMsgType.ofByte_toByte] at h
  obtain ⟨sessionId', s₁, hdecode, h₁⟩ := run_bind_ok h
  obtain ⟨rfl, rfl⟩ := decode_ok (putStr_roundTrips [] sessionId) hpayload hdecode
  obtain ⟨published, s₂, hlocked, h₂⟩ := run_bind_ok h₁
  obtain ⟨-, rfl⟩ := replyOk_answer h₂ hout
  obtain ⟨info, store, hallowed, hcommit⟩ := run_bind_ok (onStore_ok hlocked)
  have hsame := getAllowedSession_readOnly session sessionId' s₁.store
  rw [hallowed] at hsame
  obtain rfl := hsame
  rw [← hid] at hcommit
  obtain ⟨id, hpublished⟩ := commitSession_ok hkeeps hcommit
  exact ⟨_, id, hpublished⟩

end Requests

/-- The artifact is delivered as long as nobody deletes it. -/
theorem Clients.run_delivers {c : Clients} {a : ArtifactRow} (hsha : sha.NoCollision contents)
    (hinv : StoreInv sha contents leaked c.service.store) (ha : a ∈ c.service.store.db.artifact) :
    ∃ content, content.length = a.size.toNat ∧ sha.hex content = a.digest ∧
      ∀ later, Bring contents later → (∀ e ∈ later, ¬ e.Deletes a) →
        (c.run sha later).service.store.Delivers ⟨a.ns, a.name, a.version⟩ content := by
  obtain ⟨chunks, hdepicts⟩ := hinv.depicted hsha a ha
  refine ⟨chunks.flatten, hdepicts.size.symm, hdepicts.digest.symm, ?_⟩
  intro later hbring hstays length hlength
  have hkept := run_kept hbring hinv
  have ha' : a ∈ (c.run sha later).service.store.db.artifact := by
    apply hkept.evolves.keeps a ha
    rintro ⟨e, he, hdeletes⟩
    exact hstays e he hdeletes
  have hmanifest := (hkept.evolves.old a ha' (hinv.rows.artifactIds a ha)).2
  apply hkept.inv.readArtifact_whole hsha ha'
  · rw [hmanifest]
    exact hdepicts
  · rw [UInt64.le_iff_toNat_le, hdepicts.size]
    exact hlength

theorem Clients.Gives.granted {c : Clients} {connId : Nat} {t : Round} {rounds : List Round}
    (h : c.Gives sha connId (t :: rounds)) (hbusiness : t.request.isBusiness = true)
    (hreply : IsReply t.reply) :
    ∃ session result, (dispatchBusiness sha t.env connId session t.request).run
      (c.run sha t.others).service = (.ok result, (c.run sha (t.events connId)).service) ∧
        result.out = [t.reply] := by
  obtain ⟨session, result, session', hrun, hout⟩ := h.handle
  have hmem : t.reply ∈ result.out := by
    rw [hout]
    exact List.mem_singleton_self _
  exact ⟨session, result, handle_granted hbusiness hrun hmem hreply, hout⟩

theorem Clients.Gives.publishes {c : Clients} {connId : Nat} {first middle : List Round}
    {t t' : Round} {req : CreateUploadReq} {ok : CreateUploadOk}
    (hinv : StoreInv sha contents leaked c.service.store)
    (hbring : Bring contents ((first ++ t :: (middle ++ [t'])).flatMap (·.events connId)))
    (h : c.Gives sha connId (first ++ t :: (middle ++ [t'])))
    (htype : t.request.type = FrMsgType.createUpload.toByte)
    (hpayload : payloadOf (encodeCreateUploadReq req) = .ok t.request.payload)
    (hreply : IsReply t.reply) (hanswer : decodeFrame decodeCreateUploadOk t.reply = .ok ok)
    (htype' : t'.request.type = FrMsgType.commitUpload.toByte)
    (hpayload' : payloadOf (putStr ok.sessionId) = .ok t'.request.payload)
    (hreply' : IsReply t'.reply) :
    ∃ a ∈ (c.run sha ((first ++ t :: (middle ++ [t'])).flatMap
      (·.events connId))).service.store.db.artifact,
      (⟨a.ns, a.name, a.version⟩ : ArtifactRef) = req.ref ∧ a.size = req.expectedSize ∧
        a.digest = req.expectedDigest := by
  have hbusiness : t.request.isBusiness = true := by
    rw [FrFrame.isBusiness, htype, FrMsgType.ofByte_toByte]
  have hbusiness' : t'.request.isBusiness = true := by
    rw [FrFrame.isBusiness, htype', FrMsgType.ofByte_toByte]
  have hcreate := h.append
  have hcommit := hcreate.2.append
  rw [List.flatMap_append, List.flatMap_cons, List.flatMap_append, List.flatMap_singleton,
    Round.events, List.append_assoc] at hbring
  -- the session
  obtain ⟨session, result, hrun, hout⟩ := hcreate.granted hbusiness hreply
  rw [← run_append] at hrun
  have hbefore : Bring contents (first.flatMap (·.events connId) ++ t.others) := by
    intro e he
    apply hbring e
    rw [← List.append_assoc]
    exact List.mem_append_left _ he
  obtain ⟨created, hid, hkeeps, cfg, env, owner, hnew⟩ := createUpload_granted htype hpayload
    (run_kept hbefore hinv).inv hrun hout hanswer
  -- what others do leaves its terms
  obtain ⟨session', result', hrun', hout'⟩ := hcommit.granted hbusiness' hreply'
  have hlater : KeepsTerms created (((((c.run sha (first.flatMap (·.events connId))).run sha
      (t.events connId)).run sha (middle.flatMap (·.events connId))).run sha
        t'.others).service.store) :=
    run_stored (keepsTerms_allows created) _ (run_stored (keepsTerms_allows created) _ hkeeps)
  obtain ⟨now, id, hpublished⟩ := commitUpload_granted htype' hpayload' hid hlater hrun' hout'
  rw [List.flatMap_append, List.flatMap_cons, List.flatMap_append, List.flatMap_singleton,
    run_append, run_append, run_append]
  refine ⟨_, hpublished, ?_⟩
  rw [hnew]
  exact ⟨rfl, rfl, rfl⟩

/-- What `frctl upload` has published is a content of the size of the file and with the digest of
what was read first, which is the file if nobody has resized it; everybody gets it until somebody
deletes it. -/
theorem upload_delivers {c : Clients} {connId : Nat} {rounds : List Round} {conn conn' : ClientConn}
    {rest : List FrFrame} {file : LocalFile} {token : Bytes} {ref : ArtifactRef}
    {published : CommitUploadOk} (hsha : sha.NoCollision contents)
    (hinv : StoreInv sha contents leaked c.service.store)
    (hbring : Bring contents (rounds.flatMap (·.events connId)))
    (hgives : c.Gives sha connId rounds)
    (hencodable : ∀ t ∈ rounds, t.request.Encodable)
    (hsent : conn'.sent = conn.sent ++ rounds.map (frameBytes ·.request))
    (hframes : conn.frames = rounds.map (·.reply) ++ rest)
    (hupload : (cmdUpload sha file token ref).run conn = .ok (published, conn')) :
    ∃ bytes content, file.hashed = some bytes ∧
      (file.first.length = file.size.toNat → bytes = file.first) ∧
      content.length = file.size.toNat ∧ sha.hex content = sha.hex bytes ∧
      ∀ later, Bring contents later → (∀ e ∈ later, e.deletes? ≠ some ref) →
        (c.run sha (rounds.flatMap (·.events connId) ++ later)).service.store.Delivers ref
          content := by
  obtain ⟨dialogue, hhad, bytes, handshake, created, session, chunks, committed, hdialogue, hbytes,
    ⟨payload, reply, hpayload, ⟨request, rfl, htype, rfl, hreply⟩, hsession⟩,
    payload', reply', hpayload', ⟨request', rfl, htype', rfl, hreply'⟩, -⟩ :=
    talks_cmdUpload sha file token ref conn conn' published hupload
  rw [hhad.rounds hsent hframes hencodable, List.singleton_append] at hdialogue
  obtain ⟨first, tail, rfl, -, htail⟩ := List.map_eq_append_iff.mp hdialogue
  obtain ⟨t, others, rfl, ht, hothers⟩ := List.map_eq_cons_iff.mp htail
  obtain ⟨middle, last, rfl, -, hlast⟩ := List.map_eq_append_iff.mp hothers
  obtain ⟨t', rfl, ht'⟩ := List.map_eq_singleton_iff.mp hlast
  obtain ⟨rfl, rfl⟩ := Prod.mk.inj ht
  obtain ⟨rfl, rfl⟩ := Prod.mk.inj ht'
  obtain ⟨a, ha, href, hsize, hdigest⟩ := hgives.publishes hinv hbring htype hpayload hreply
    hsession htype' hpayload' hreply'
  dsimp only at href hsize hdigest
  obtain ⟨content, hlength, hhex, hdelivers⟩ :=
    Clients.run_delivers hsha (Clients.run_kept hbring hinv).inv ha
  refine ⟨bytes, content, hbytes, ?_, ?_, ?_, ?_⟩
  · intro hwhole
    rw [LocalFile.hashed_whole hwhole, Option.some.injEq] at hbytes
    exact hbytes.symm
  · rw [hlength, hsize]
  · rw [hhex, hdigest]
  · intro later hlater hstays
    rw [Clients.run_append, ← href]
    apply hdelivers later hlater
    intro e he hdeletes
    apply hstays e he
    rw [← href]
    exact hdeletes

/-- The replies of the server to these requests on the connection 1, with what others do in front of
each. -/
def Clients.rounds (sha : Sha256) (env : RequestEnv) :
    Clients → List (List ClientEvent × FrFrame) → List Round
  | _, [] => []
  | c, (others, request) :: requests =>
    match (c.run sha others).reply sha 1 env [] request with
    | some (.ok ⟨[reply], _, _, _⟩) =>
      let round : Round := ⟨others, env, [], request, reply⟩
      round :: (c.run sha (round.events 1)).rounds sha env requests
    | _ => []

/-- A server with the publisher `alice`. -/
def sampleShop : Clients :=
  .start .empty ((AuthDb.empty.userAdd 1 (ascii "alice") .publisher >>= fun db =>
    db.tokenCreate sampleSha 1 (List.replicate 32 1)
      (ascii "alice") 0).toOption.elim .empty Prod.snd)

def sampleRef : ArtifactRef := ⟨ascii "team", ascii "app", ascii "1.0"⟩

/-- The storage cuts contents into single bytes; a real one takes 1 MiB at least. -/
def sampleBytewise : RequestEnv :=
  { sampleRequestEnv 2 with cfg := { sampleConfig with chunkSize := 1 } }

/-- `alice` uploads the content `aa`, while another client comes and goes, asks for what there is,
and the maintenance runs. -/
def sampleUploadRounds : List Round :=
  sampleShop.rounds sampleSha sampleBytewise
    [([.connect 1], sampleFrame .hello (encodeHelloReq ⟨frProtocolVersion, clientVersion⟩)),
      ([.connect 2], sampleFrame .auth (encodeAuthReq ⟨tokenText (List.replicate 32 1)⟩)),
      ([], sampleFrame .createUpload
        (encodeCreateUploadReq ⟨sampleRef, 2, sampleSha.hex (ascii "aa")⟩)),
      ([.request 2 sampleBytewise [] (sampleFrame .auth
          (encodeAuthReq ⟨tokenText (List.replicate 32 1)⟩)), .maintenance (sampleEnv 2)],
        sampleFrame .putChunk (encodePutChunkReq ⟨ascii "s1", 0, ascii "a"⟩)),
      ([.request 2 sampleBytewise [] (sampleFrame .showArtifact (putRef sampleRef))],
        sampleFrame .putChunk (encodePutChunkReq ⟨ascii "s1", 1, ascii "a"⟩)),
      ([.disconnect 2], sampleFrame .commitUpload (putStr (ascii "s1")))]

/-- The file is replaced by another one, with the same content, while it is read. -/
def sampleFile : LocalFile := ⟨ascii "app", true, 2, ascii "aa", ascii "aa", 4 * 1024 * 1024⟩

def sampleUploader : ClientConn :=
  ⟨fun _ => 9, [], sampleUploadRounds.map (·.reply), .of .eIo "lost"⟩

/-- The artifact is there when `alice` has been told so. -/
theorem upload_delivers_sample : ∃ content, content.length = 2 ∧
    sampleSha.hex content = sampleSha.hex (ascii "aa") ∧
      (sampleShop.run sampleSha (sampleUploadRounds.flatMap (·.events 1))).service.store.Delivers
        sampleRef content := by
  have hrun : ((cmdUpload sampleSha sampleFile (tokenText (List.replicate 32 1))
      sampleRef).run sampleUploader).toOption.map (·.2.sent) =
        some (sampleUploadRounds.map (frameBytes ·.request)) := by decide +kernel
  rcases hupload : (cmdUpload sampleSha sampleFile (tokenText (List.replicate 32 1))
    sampleRef).run sampleUploader with e | ⟨published, conn'⟩
  · rw [hupload] at hrun
    cases hrun
  rw [hupload] at hrun
  have hsent : conn'.sent = sampleUploadRounds.map (frameBytes ·.request) := Option.some.inj hrun
  have hchunks : (sampleUploadRounds.flatMap (·.events 1)).filterMap (·.chunk?) =
      [ascii "a", ascii "a"] := by decide +kernel
  have hbring : Bring {ascii "a"} (sampleUploadRounds.flatMap (·.events 1)) := by
    rw [bring_iff, hchunks]
    simp
  have hgives : sampleShop.Gives sampleSha 1 sampleUploadRounds := by decide +kernel
  have hencodable : ∀ t ∈ sampleUploadRounds, (encodeFrame t.request).isSome = true := by
    decide +kernel
  obtain ⟨bytes, content, -, hbytes, hlength, hhex, hdelivers⟩ := upload_delivers
    (Set.subsingleton_singleton.injOn _) (.empty sampleSha {ascii "a"} ∅) hbring hgives
    (fun t ht => (encodeFrame_isSome _).mp (hencodable t ht)) hsent (List.append_nil _).symm
    hupload
  rw [hbytes rfl] at hhex
  refine ⟨content, hlength, hhex, ?_⟩
  have hnow := hdelivers [] (List.forall_mem_nil _) (List.forall_mem_nil _)
  rwa [List.append_nil] at hnow

end ForgeRelay
