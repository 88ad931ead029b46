import ForgeRelay.Client.Delivery
import ForgeRelay.Client.Streams
import ForgeRelay.Service.MessageKinds

/-!
# Downloads from end to end

`frctl download` that succeeds has put the rest of the artifact behind what it has kept of an
earlier run, whatever the server does for others in between.
-/

namespace ForgeRelay

open Program Prog

variable {sha : Sha256} {contents leaked : Set Bytes}

/-- The request of `cmd_download` for what is missing. -/
def missingPart (ref : ArtifactRef) (size : UInt64) (kept : Bytes) : GetArtifactReq :=
  ⟨ref, UInt64.ofNat kept.length, size - UInt64.ofNat kept.length⟩

/-- `cmd_download` as far as the first frame of the download. -/
def Client.startDownload (token : Bytes) (ref : ArtifactRef) (resume : Bool)
    (part : Option Bytes) : ClientM (ArtifactInfo × FrFrame) := do
  Client.connect token
  let info ← Client.showArtifact ref
  let payload ← Client.message
    (encodeGetArtifactReq (missingPart ref info.size (resumed resume info.size part)))
  let frame ← Client.request .getArtifact payload
  return (info, frame)

section Start

variable {io : DiskResults} {conn : ClientConn} {token text output kept : Bytes} {resume : Bool}
  {files files' : Bytes → Option Bytes} {ref : ArtifactRef} {sent : UInt64}

private theorem download_start {req : GetArtifactReq} {file : PartFile}
    (h : Client.download (PartFile.write io output) req conn ⟨kept, []⟩ = (.ok sent, file)) :
    ∃ frame conn' slices,
      (do
        let payload ← Client.message (encodeGetArtifactReq req)
        Client.request .getArtifact payload : ClientM FrFrame).run conn = .ok (frame, conn') ∧
      ReplyStream (frame :: conn'.frames) slices ∧ file = ⟨kept, dataOf slices⟩ := by
  unfold Client.download at h
  dsimp only at h
  split at h
  · cases h
  · rename_i frame conn' hasked
    obtain ⟨slices, hstream, -, rfl⟩ := (returns_iff (Nat.zero_le _)).mp ⟨sent, h⟩
    exact ⟨frame, conn', slices, hasked, hstream, rfl⟩

private theorem cmdDownload_start (hparse : parseArtifactRef text = .ok ref)
    (h : cmdDownload io conn token text output resume files = (.ok sent, files')) :
    ∃ info frame conn' slices,
      (Client.startDownload token ref resume (files (partPath output))).run conn =
        .ok ((info, frame), conn') ∧
      ReplyStream (frame :: conn'.frames) slices ∧
      files' = replaceOutput io (Function.update files (partPath output) (some (PartFile.close io
        ⟨resumed resume info.size (files (partPath output)), dataOf slices⟩))) output := by
  unfold cmdDownload at h
  rw [hparse] at h
  dsimp only at h
  split at h
  · cases h
  rename_i info conn₁ hshown
  split at h
  case isFalse => cases h
  generalize hdownload : Client.download (PartFile.write io output) _ conn₁ _ = r at h
  obtain ⟨result, file⟩ := r
  cases result with
  | error e => cases h
  | ok total =>
    cases h
    obtain ⟨frame, conn', slices, hasked, hstream, rfl⟩ := download_start hdownload
    refine ⟨info, frame, conn', slices, ?_, hstream, rfl⟩
    have hsplit : Client.startDownload token ref resume (files (partPath output)) = (do
        let info ← (do
          Client.connect token
          Client.showArtifact ref)
        let frame ← (do
          let payload ← Client.message (encodeGetArtifactReq (missingPart ref info.size
            (resumed resume info.size (files (partPath output)))))
          Client.request .getArtifact payload)
        return (info, frame)) := by
      unfold Client.startDownload
      simp only [bind_assoc]
    rw [hsplit, StateT.run_bind, hshown]
    change ((do
      let payload ← Client.message (encodeGetArtifactReq (missingPart ref info.size
        (resumed resume info.size (files (partPath output)))))
      Client.request .getArtifact payload) >>= fun frame => pure (info, frame) :
        ClientM (ArtifactInfo × FrFrame)).run conn₁ = _
    rw [StateT.run_bind, missingPart, hasked]
    rfl

end Start

private theorem talks_startDownload (token : Bytes) (ref : ArtifactRef) (resume : Bool)
    (part : Option Bytes) :
    Talks (Client.startDownload token ref resume part) fun dialogue r =>
      ∃ handshake shown asked payload, dialogue = handshake ++ (shown ++ asked) ∧
        Answered .showArtifact (putRef ref) decodeShowArtifactOk shown ⟨r.1⟩ ∧
        payloadOf (encodeGetArtifactReq (missingPart ref r.1.size
          (resumed resume r.1.size part))) = .ok payload ∧
        Exchange .getArtifact payload asked r.2 := by
  unfold Client.startDownload
  apply ((connect_converses token).bind fun _ => (talks_showArtifact ref).bind fun info =>
    (talks_message _).bind fun payload => (talks_request .getArtifact payload).bind fun frame =>
      .pure (info, frame)).mono
  rintro _ _ ⟨handshake, _, _, rfl, -, shown, info, _, rfl, hshown, _, payload, _, rfl,
    ⟨rfl, hpayload⟩, asked, frame, _, rfl, hasked, rfl, rfl⟩
  refine ⟨handshake, shown, asked, payload, ?_, hshown, hpayload, hasked⟩
  simp

theorem Store.Delivers.available {s : Store} {ref : ArtifactRef} {content : Bytes}
    (hsha : sha.NoCollision contents) (hinv : StoreInv sha contents leaked s)
    (hsize : content.length < 2^64) (h : s.Delivers ref content) :
    ∃ a chunks, (⟨a.ns, a.name, a.version⟩ : ArtifactRef) = ref ∧
      Available sha contents a chunks s ∧ chunks.flatten = content := by
  have hmax : (UInt64.ofNat (2^64 - 1)).toNat = 2^64 - 1 := by decide
  have hread := h (UInt64.ofNat (2^64 - 1)) (by omega)
  cases hfound : s.db.artifact? ref.ns ref.name ref.version with
  | none =>
    rw [readArtifact, run_bind, showArtifact, run_bind, run_select, hfound] at hread
    cases hread
  | some a =>
    obtain ⟨ha, href⟩ := Db.artifact?_some hfound
    obtain ⟨chunks, hdepicts⟩ := hinv.depicted hsha a ha
    obtain rfl : (⟨a.ns, a.name, a.version⟩ : ArtifactRef) = ref := by
      rw [ArtifactRow.ref, Prod.mk.injEq, Prod.mk.injEq] at href
      rw [href.1, href.2.1, href.2.2]
    have hwhole : a.size ≤ UInt64.ofNat (2^64 - 1) := by
      rw [UInt64.le_iff_toNat_le, hmax]
      have := a.size.toNat_lt
      omega
    rw [hinv.readArtifact_whole hsha ha hdepicts hwhole] at hread
    exact ⟨a, chunks, rfl, ⟨hinv.forget, ha, hdepicts⟩, Except.ok.inj (Prod.mk.inj hread).1⟩

section Shown

variable {env : RequestEnv} {connId : Nat} {session : ClientSession} {frame reply : FrFrame}
  {result : HandleResult} {s s' : Service} {a : ArtifactRow} {chunks : List Bytes}

private theorem showArtifact_granted {info : ArtifactInfo}
    (htype : frame.type = FrMsgType.showArtifact.toByte)
    (hpayload : payloadOf (putRef ⟨a.ns, a.name, a.version⟩) = .ok frame.payload)
    (havail : Available sha contents a chunks s.store)
    (h : (dispatchBusiness sha env connId session frame).run s = (.ok result, s'))
    (hout : result.out = [reply]) (hanswer : decodeFrame decodeShowArtifactOk reply = .ok ⟨info⟩) :
    info.size = a.size := by
  rw [dispatchBusiness, htype, FrMsgType.ofByte_toByte] at h
  obtain ⟨_, s₁, hrole, h₁⟩ := run_bind_ok h
  obtain ⟨-, rfl⟩ := run_ofExcept_ok hrole
  obtain ⟨ref, s₂, hdecode, h₂⟩ := run_bind_ok h₁
  obtain ⟨rfl, rfl⟩ := decode_ok (putRef_roundTrips [] _) hpayload hdecode
  obtain ⟨shown, s₃, hshow, h₃⟩ := run_bind_ok h₂
  obtain ⟨henc, rfl⟩ := replyOk_answer h₃ hout
  have hrun := showArtifact_run (havail.inv.rows.artifact?_eq havail.row)
  rw [onStore_ok hshow] at hrun
  rw [showArtifactOk_received henc (replyOk_frame_fits h₃ hout)] at hanswer
  cases hanswer
  rw [Except.ok.inj (Prod.mk.inj hrun).1]
  rfl

end Shown

private theorem streamFrames_slices {reqId : UInt32} {pieces : List Bytes} {sent : UInt64}
    {slices : List FrFrame} (h : ReplyStream (streamFrames reqId pieces sent) slices) :
    dataOf slices = pieces.flatten := by
  induction pieces generalizing slices with
  | nil =>
    have hok : FrMsgType.ok.toByte ≠ FrMsgType.data.toByte := by decide
    obtain ⟨rfl, -⟩ := (streams_cons_other hok).mp h
    rfl
  | cons piece pieces ih =>
    obtain ⟨later, rfl, hlater⟩ := (streams_cons_data rfl).mp h
    rw [dataOf, List.flatMap_cons, List.flatten_cons, ← ih hlater]
    rfl

private theorem resumed_length_le (resume : Bool) (size : UInt64) (part : Option Bytes) :
    (resumed resume size part).length ≤ size.toNat := by
  unfold resumed
  split
  · split
    · rename_i h
      exact h.2.le
    · exact Nat.zero_le _
  · exact Nat.zero_le _

private theorem missingPart_eq {size : UInt64} {content kept : Bytes} (ref : ArtifactRef)
    (hsize : size.toNat = content.length) (hkept : kept.length ≤ size.toNat) :
    (content.drop (missingPart ref size kept).offset.toNat).take
      (missingPart ref size kept).length.toNat = content.drop kept.length := by
  have hlt := size.toNat_lt
  have hoffset : (UInt64.ofNat kept.length).toNat = kept.length := uint64_toNat_ofNat (by omega)
  have hle : UInt64.ofNat kept.length ≤ size := by
    rw [UInt64.le_iff_toNat_le, hoffset]
    exact hkept
  simp only [missingPart, UInt64.toNat_sub_of_le _ _ hle, hoffset]
  apply List.take_of_length_le
  rw [List.length_drop]
  omega

/-- The requests of a download, with their replies. -/
structure DownloadRun where
  rounds : List Round
  fetch : Fetch

namespace DownloadRun

/-- What happens up to the last frame. -/
def events (connId : Nat) (t : DownloadRun) : List ClientEvent :=
  t.rounds.flatMap (·.events connId) ++ t.fetch.events connId

def requests (t : DownloadRun) : List FrFrame := t.rounds.map (·.request) ++ [t.fetch.request]

def replies (t : DownloadRun) : List FrFrame := t.rounds.map (·.reply) ++ t.fetch.allFrames

end DownloadRun

/-- The request of a download, with its first frame. -/
def Fetch.round (t : Fetch) (frame : FrFrame) : Round :=
  ⟨t.others, t.env, t.peer, t.request, frame⟩

/-- The server gives these replies. -/
structure Clients.ServesDownload (sha : Sha256) (connId : Nat) (c : Clients) (t : DownloadRun) :
    Prop where
  gives : c.Gives sha connId t.rounds
  fetches : (c.run sha (t.rounds.flatMap (·.events connId))).Fetches sha connId t.fetch
  encodable : ∀ f ∈ t.requests, f.Encodable

theorem Clients.ServesDownload.content {c : Clients} {connId : Nat} {t : DownloadRun}
    {first : List Round} {shown : Round} {a : ArtifactRow} {chunks : List Bytes}
    {info : ArtifactInfo} {kept : Bytes} {frame : FrFrame} {frames slices : List FrFrame}
    (hsha : sha.NoCollision contents) (h : c.ServesDownload sha connId t)
    (havail : Available sha contents a chunks c.service.store)
    (hnumbered : c.service.Numbered (t.events connId).length)
    (hbring : Bring contents (t.events connId)) (hstays : ∀ e ∈ t.events connId, ¬ e.Deletes a)
    (hrounds : t.rounds = first ++ [shown])
    (htype : shown.request.type = FrMsgType.showArtifact.toByte)
    (hpayload : payloadOf (putRef ⟨a.ns, a.name, a.version⟩) = .ok shown.request.payload)
    (hreply : IsReply shown.reply)
    (hinfo : decodeFrame decodeShowArtifactOk shown.reply = .ok ⟨info⟩)
    (hkept : kept.length ≤ info.size.toNat)
    (htype' : t.fetch.request.type = FrMsgType.getArtifact.toByte)
    (hpayload' : payloadOf (encodeGetArtifactReq
      (missingPart ⟨a.ns, a.name, a.version⟩ info.size kept)) = .ok t.fetch.request.payload)
    (hframes : t.fetch.allFrames = frame :: frames) (hreply' : IsReply frame)
    (hstream : ReplyStream (frame :: frames) slices) :
    info.size = a.size ∧ dataOf slices = chunks.flatten.drop kept.length := by
  obtain ⟨hbringRounds, hbringFetch⟩ := List.forall_mem_append.mp hbring
  obtain ⟨hstaysRounds, hstaysFetch⟩ := List.forall_mem_append.mp hstays
  -- the announcement
  have hsize : info.size = a.size := by
    have hgives := h.gives
    rw [hrounds] at hgives
    have hbusiness : shown.request.isBusiness = true := by
      rw [FrFrame.isBusiness, htype, FrMsgType.ofByte_toByte]
    obtain ⟨session, result, hrun, hout⟩ := hgives.append.granted hbusiness hreply
    rw [← Clients.run_append] at hrun
    have hbefore : ∀ e ∈ first.flatMap (·.events connId) ++ shown.others,
        e ∈ t.rounds.flatMap (·.events connId) := by
      intro e he
      rw [hrounds, List.flatMap_append, List.flatMap_singleton, Round.events, ← List.append_assoc]
      exact List.mem_append_left _ he
    have havailShown := havail.run (fun e he => hbringRounds e (hbefore e he))
      fun e he => hstaysRounds e (hbefore e he)
    exact showArtifact_granted htype hpayload havailShown hrun hout hinfo
  refine ⟨hsize, ?_⟩
  -- the download
  have hlength := havail.depicts.size
  have hnumberedFetch : (c.run sha (t.rounds.flatMap (·.events connId))).service.Numbered
      (t.fetch.events connId).length := by
    rw [DownloadRun.events, List.length_append] at hnumbered
    exact (Clients.run_moves hnumbered).numbered
  have hoffset : (missingPart ⟨a.ns, a.name, a.version⟩ info.size kept).offset ≤ a.size := by
    have hlt := info.size.toNat_lt
    rw [← hsize, UInt64.le_iff_toNat_le]
    change (UInt64.ofNat kept.length).toNat ≤ _
    rw [uint64_toNat_ofNat (by omega)]
    exact hkept
  obtain ⟨pieces, sent, hall, hpieces⟩ := h.fetches.streams hsha htype' hpayload'
    ⟨frame, frames, hframes, hreply'⟩ (havail.run hbringRounds hstaysRounds) hnumberedFetch
    hbringFetch hstaysFetch rfl hoffset
  rw [← hframes, hall] at hstream
  rw [streamFrames_slices hstream, hpieces]
  exact missingPart_eq _ (hsize ▸ hlength) hkept

/-- What `frctl download` has put behind what it has kept is the rest of the artifact: without
`--resume`, the output is the artifact. The frames reach the client in the order in which the
server has handled the requests and the continuations; several workers do not ensure this. -/
theorem download_delivers {c : Clients} {connId : Nat} {t : DownloadRun} {io : DiskResults}
    {conn conn' : ClientConn} {token text output content : Bytes} {resume : Bool}
    {files files' : Bytes → Option Bytes} {ref : ArtifactRef} {r : ArtifactInfo × FrFrame}
    {sent : UInt64} (hsha : sha.NoCollision contents)
    (hinv : StoreInv sha contents leaked c.service.store)
    (hnumbered : c.service.Numbered (t.events connId).length) (hsize : content.length < 2^64)
    (hdelivers : c.service.store.Delivers ref content) (hbring : Bring contents (t.events connId))
    (hstays : ∀ e ∈ t.events connId, e.deletes? ≠ some ref)
    (hserves : c.ServesDownload sha connId t)
    (hparse : parseArtifactRef text = .ok ref)
    (hstart : (Client.startDownload token ref resume (files (partPath output))).run conn =
      .ok (r, conn'))
    (hsent : conn'.sent = conn.sent ++ t.requests.map frameBytes)
    (hframes : conn.frames = t.replies)
    (hflushed : io.unflushed = 0) (hrenames : io.renames = true ∨ io.renamesAgain = true)
    (hdownload : cmdDownload io conn token text output resume files = (.ok sent, files')) :
    files' output = some (resumed resume (UInt64.ofNat content.length) (files (partPath output)) ++
      content.drop
        (resumed resume (UInt64.ofNat content.length) (files (partPath output))).length) := by
  obtain ⟨info, frame, _, slices, hrun, hstream, rfl⟩ := cmdDownload_start hparse hdownload
  obtain ⟨rfl, rfl⟩ := Prod.mk.inj (Except.ok.inj (hstart.symm.trans hrun))
  obtain ⟨dialogue, hhad, handshake, _, _, payload', hdialogue, ⟨payload, reply, hpayload,
    ⟨request, rfl, htype, rfl, hreply⟩, hinfo⟩, hpayload', request', rfl, htype', rfl, hreply'⟩ :=
    talks_startDownload token ref resume (files (partPath output)) conn conn' _ hstart
  -- the first frame of the download
  have hlength : (handshake ++ [(request, reply)]).length = t.rounds.length := by
    have hsame := List.append_cancel_left (hhad.sent.symm.trans hsent)
    have := congrArg List.length hsame
    simp [hdialogue, DownloadRun.requests] at this ⊢
    omega
  have hreplies := hhad.frames.symm.trans hframes
  rw [hdialogue, ← List.append_assoc, List.map_append, List.append_assoc, DownloadRun.replies]
    at hreplies
  obtain ⟨-, hall⟩ := List.append_inj hreplies (by simpa using hlength)
  -- the requests are those of the rounds
  have hrounds : dialogue =
      (t.rounds ++ [t.fetch.round frame]).map fun t => (t.request, t.reply) := by
    apply @HadDialogue.rounds dialogue conn conn' hhad _ conn'.frames
    · simpa [DownloadRun.requests, Fetch.round, Function.comp_def] using hsent
    · rw [hframes, DownloadRun.replies, ← hall]
      simp [Fetch.round]
    · intro t' ht'
      apply hserves.encodable
      rcases List.mem_append.mp ht' with hround | hfetch
      · exact List.mem_append_left _ (List.mem_map_of_mem hround)
      · rw [List.mem_singleton.mp hfetch]
        exact List.mem_append_right _ (List.mem_singleton_self _)
  rw [hdialogue, ← List.append_assoc, List.map_append] at hrounds
  obtain ⟨hfirst, hlast⟩ := List.append_inj' hrounds rfl
  obtain ⟨first, last, hsplit, -, hshown⟩ := List.map_eq_append_iff.mp hfirst.symm
  obtain ⟨shown, rfl, hpair⟩ := List.map_eq_singleton_iff.mp hshown
  obtain ⟨rfl, rfl⟩ := Prod.mk.inj hpair
  obtain ⟨rfl, -⟩ := Prod.mk.inj (List.singleton_inj.mp hlast)
  -- the server
  obtain ⟨a, chunks, rfl, havail, rfl⟩ := hdelivers.available hsha hinv hsize
  obtain ⟨hinfoSize, hdata⟩ := hserves.content hsha havail hnumbered hbring hstays hsplit htype
    hpayload hreply hinfo (resumed_length_le resume info.size (files (partPath output))) htype'
    hpayload' hall.symm hreply' hstream
  have hknown : info.size = UInt64.ofNat chunks.flatten.length := by
    apply UInt64.toNat_inj.mp
    rw [uint64_toNat_ofNat hsize, hinfoSize]
    exact havail.depicts.size
  rw [← hknown, replaceOutput_output, if_pos hrenames, Function.update_self, PartFile.close,
    hflushed, List.rdrop_zero, hdata]

/-- The server after the sample upload. -/
def sampleStock : Clients := sampleShop.run sampleSha (sampleUploadRounds.flatMap (·.events 1))

/-- `alice` connects anew and asks for the sample artifact. -/
def sampleStockRounds : List Round :=
  sampleStock.rounds sampleSha (sampleRequestEnv 2)
    [([.disconnect 1, .connect 1],
        sampleFrame .hello (encodeHelloReq ⟨frProtocolVersion, clientVersion⟩)),
      ([], sampleFrame .auth (encodeAuthReq ⟨tokenText (List.replicate 32 1)⟩)),
      ([.maintenance (sampleEnv 2)], sampleFrame .showArtifact (putRef sampleRef))]

/-- What she gets for her GET_ARTIFACT. -/
def sampleFetchResult : HandleResult :=
  match (sampleStock.run sampleSha (sampleStockRounds.flatMap (·.events 1))).reply sampleSha 1
    (sampleRequestEnv 3) [] (sampleFrame .getArtifact (encodeGetArtifactReq ⟨sampleRef, 0, 2⟩)) with
  | some (.ok result) => result
  | _ => .empty

def sampleDownloadRun : DownloadRun where
  rounds := sampleStockRounds
  fetch := {
    others := []
    env := sampleRequestEnv 3
    peer := []
    request := sampleFrame .getArtifact (encodeGetArtifactReq ⟨sampleRef, 0, 2⟩)
    frames := sampleFetchResult.out
    key := sampleFetchResult.continuationKey
    slices := [] }

def sampleDownloader : ClientConn := ⟨fun _ => 9, [], sampleDownloadRun.replies, .of .eIo "lost"⟩

private theorem sampleDownloadRun_served :
    sampleStock.ServesDownload sampleSha 1 sampleDownloadRun := by
  have hgives : sampleStock.Gives sampleSha 1 sampleStockRounds := by decide +kernel
  have hreply : (sampleStock.run sampleSha (sampleStockRounds.flatMap (·.events 1))).reply sampleSha
      1 (sampleRequestEnv 3) [] (sampleFrame .getArtifact
        (encodeGetArtifactReq ⟨sampleRef, 0, 2⟩)) = some (.ok sampleFetchResult) := by
    decide +kernel
  have hmore : sampleFetchResult.hasMore = false := by decide +kernel
  have hsome : ∀ f ∈ sampleDownloadRun.requests, (encodeFrame f).isSome = true := by
    decide +kernel
  constructor
  · simpa only [sampleDownloadRun] using hgives
  · refine ⟨sampleFetchResult, ?_, ?_, ?_, ?_⟩
    · simpa only [sampleDownloadRun, Clients.run, List.foldl_nil] using hreply
    · simp only [sampleDownloadRun]
    · simp only [sampleDownloadRun]
    · simpa only [sampleDownloadRun, Clients.Continues] using hmore
  · intro f hf
    exact (encodeFrame_isSome f).mp (hsome f hf)

private theorem sampleStock_inv : StoreInv sampleSha {ascii "a"} ∅ sampleStock.service.store := by
  have hchunks : (sampleUploadRounds.flatMap (·.events 1)).filterMap (·.chunk?) =
      [ascii "a", ascii "a"] := by decide +kernel
  have hbring : Bring {ascii "a"} (sampleUploadRounds.flatMap (·.events 1)) := by
    rw [bring_iff, hchunks]
    simp
  have hempty : StoreInv sampleSha {ascii "a"} ∅ sampleShop.service.store := .empty _ _ _
  exact (Clients.run_kept hbring hempty).inv

private theorem sampleStock_numbered :
    sampleStock.service.Numbered (sampleDownloadRun.events 1).length := by
  have hroom : (sampleUploadRounds.flatMap (·.events 1)).length +
      (sampleDownloadRun.events 1).length < 2^64 := by decide +kernel
  have hstart : sampleShop.service.Numbered ((sampleUploadRounds.flatMap (·.events 1)).length +
      (sampleDownloadRun.events 1).length) := by
    constructor
    · exact .start _ _
    · rw [sampleShop, Clients.start, Service.start, UInt64.toNat_zero, Nat.zero_add]
      exact hroom
  exact (Clients.run_moves hstart).numbered

private theorem sampleDownloadRun_bring : Bring {ascii "a"} (sampleDownloadRun.events 1) := by
  have hnone : (sampleDownloadRun.events 1).filterMap (·.chunk?) = [] := by decide +kernel
  rw [bring_iff, hnone]
  exact List.forall_mem_nil _

private theorem sampleDownloadRun_stays :
    ∀ e ∈ sampleDownloadRun.events 1, e.deletes? ≠ some sampleRef := by
  have hnone : (sampleDownloadRun.events 1).filterMap (·.deletes?) = [] := by decide +kernel
  intro e he hdeletes
  rw [List.filterMap_eq_nil_iff.mp hnone e he] at hdeletes
  cases hdeletes

/-- A directory without files. -/
def noFiles : Bytes → Option Bytes := fun _ => none

/-- She has the artifact. -/
theorem download_delivers_sample : ∃ sent files' content,
    cmdDownload soundDisk sampleDownloader (tokenText (List.replicate 32 1))
      (ascii "team/app:1.0") (ascii "out") false noFiles = (.ok sent, files') ∧
      files' (ascii "out") = some content ∧ content.length = 2 ∧
      sampleSha.hex content = sampleSha.hex (ascii "aa") := by
  have hsha : sampleSha.NoCollision {ascii "a"} := Set.subsingleton_singleton.injOn _
  obtain ⟨a, ha, hsize, hdigest, href⟩ : ∃ a ∈ sampleStock.service.store.db.artifact,
      a.size.toNat = 2 ∧ a.digest = sampleSha.hex (ascii "aa") ∧
        (⟨a.ns, a.name, a.version⟩ : ArtifactRef) = sampleRef := by decide +kernel
  obtain ⟨content, hlength, hhex, hdelivers⟩ := Clients.run_delivers hsha sampleStock_inv ha
  have hstock := hdelivers [] (List.forall_mem_nil _) (List.forall_mem_nil _)
  rw [Clients.run, List.foldl_nil, href] at hstock
  have hsmall : content.length < 2^64 := by
    rw [hlength, hsize]
    decide
  have hrun : ((Client.startDownload (tokenText (List.replicate 32 1)) sampleRef false
      (noFiles (partPath (ascii "out")))).run sampleDownloader).toOption.map (·.2.sent) =
        some (sampleDownloadRun.requests.map frameBytes) := by decide +kernel
  have hdone : (cmdDownload soundDisk sampleDownloader (tokenText (List.replicate 32 1))
      (ascii "team/app:1.0") (ascii "out") false noFiles).1.toOption = some 2 := by
    decide +kernel
  rcases hstart : (Client.startDownload (tokenText (List.replicate 32 1)) sampleRef false
    (noFiles (partPath (ascii "out")))).run sampleDownloader with e | ⟨r, conn'⟩
  · rw [hstart] at hrun
    cases hrun
  rcases hdownload : cmdDownload soundDisk sampleDownloader (tokenText (List.replicate 32 1))
    (ascii "team/app:1.0") (ascii "out") false noFiles with ⟨e | sent, files'⟩
  · rw [hdownload] at hdone
    cases hdone
  rw [hstart] at hrun
  refine ⟨sent, files', content, rfl, ?_, hlength.trans hsize, hhex.trans hdigest⟩
  have hparse : parseArtifactRef (ascii "team/app:1.0") = .ok sampleRef := by decide +kernel
  have hsent : conn'.sent = sampleDownloader.sent ++ sampleDownloadRun.requests.map frameBytes := by
    rw [sampleDownloader, List.nil_append]
    exact Option.some.inj hrun
  have hframes : sampleDownloader.frames = sampleDownloadRun.replies := by rw [sampleDownloader]
  have hout := download_delivers hsha sampleStock_inv sampleStock_numbered hsmall hstock
    sampleDownloadRun_bring sampleDownloadRun_stays sampleDownloadRun_served hparse hstart hsent
    hframes rfl (.inl rfl) hdownload
  rw [hout]
  simp [resumed, noFiles]

end ForgeRelay
