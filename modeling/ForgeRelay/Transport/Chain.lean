import ForgeRelay.Transport.Handling

/-!
# The chain of a download

A request for an artifact is answered slice by slice: its task, then one continuation after the
other, with whatever else happens in between.
-/

namespace ForgeRelay

open Program Prog

/-- The tasks of one request, run one after the other, with what happens elsewhere between them:
the frames they give, and the service behind the last one. `none`: there are more tasks than
`fuel`, or an exception ends the process. -/
def serveChain (sha : Sha256) (env : Nat → RequestEnv) (session : ClientSession)
    (between : Nat → Service → Service) :
    Nat → Nat → Task → Service → Option (List FrFrame × Service)
  | 0, _, _, _ => none
  | fuel + 1, n, task, s =>
    match handleTask sha (env n) session task s with
    | (.error _, _) => none
    | (.ok result, s) =>
      if result.hasMore then
        (serveChain sha env session between fuel (n + 1) (task.continuation result.continuationKey)
          (between n s)).map fun (out, s) => (result.out ++ out, s)
      else some (result.out, s)

/-- What happens elsewhere while a download runs: operations of storage that do not delete its
artifact, and anything about other downloads, the registry and the addresses. -/
structure Elsewhere (sha : Sha256) (contents : Set Bytes) (ref : Bytes × Bytes × Bytes)
    (key : Bytes) (s s' : Service) : Prop where
  get : s'.gets key = s.gets key
  storage : ∃ config config' events,
    Trace.Run (System.Step sha anywhere) ⟨s.store, config⟩ events ⟨s'.store, config'⟩ ∧
      putData events ⊆ contents ∧ ∀ e ∈ events, ¬ e.deletes ref

/-- The service can be read: the artifact is in the table, and these are its chunks. -/
structure Available (sha : Sha256) (contents : Set Bytes) (a : ArtifactRow) (chunks : List Bytes)
    (s : Store) : Prop where
  inv : StoreInv sha contents Set.univ s
  row : a ∈ s.db.artifact
  depicts : Depicts sha contents (s.db.manifest a.id) a chunks

variable {sha : Sha256} {contents : Set Bytes} {env : Nat → RequestEnv} {session : ClientSession}
  {between : Nat → Service → Service} {a : ArtifactRow} {chunks : List Bytes} {key : Bytes}
  {s s' : Service} {state : GetState} {task : Task} {n : Nat}

theorem Available.elsewhere (h : Available sha contents a chunks s.store)
    (helse : Elsewhere sha contents a.ref key s s') : Available sha contents a chunks s'.store := by
  obtain ⟨config, config', events, hrun, hput, hkeeps⟩ := helse.storage
  have hkept := System.run_kept hrun anywhere_harmless hput h.inv
  have hrow := hkept.evolves.keeps a h.row fun ⟨e, he, hdeletes⟩ => hkeeps e he hdeletes
  have hmanifest := (hkept.evolves.old a hrow (h.inv.rows.artifactIds a h.row)).2
  exact ⟨hkept.inv, hrow, hmanifest ▸ h.depicts⟩

/-- The bytes of the artifact that a download has still to send. -/
def GetState.rest (state : GetState) (content : Bytes) : Bytes :=
  (content.drop state.offset.toNat).take state.remaining.toNat

/-- A state of a download of this artifact. -/
structure GetState.Reads (state : GetState) (a : ArtifactRow) : Prop where
  ref : (state.ns, state.name, state.version) = a.ref
  offset : state.offset ≤ a.size
  sent : state.sent ≤ state.offset
  reqId : state.reqId ≠ 0

/-- The payloads of DATA frames: none is empty, and none is larger than a slice. -/
def DataSized (pieces : List Bytes) : Prop :=
  ∀ piece ∈ pieces, 1 ≤ piece.length ∧ piece.length ≤ dataSliceBytes.toNat

/-- What one slice of an available artifact sends. -/
structure Sends (state : GetState) (content : Bytes) (pieces : List Bytes) (sent : UInt64) :
    Prop where
  eq : pieces.flatten = (content.drop state.offset.toNat).take
    (min dataSliceBytes.toNat state.remaining.toNat)
  length : sent.toNat = pieces.flatten.length
  sized : DataSized pieces

private theorem sendSlice_run (havail : Available sha contents a chunks s.store)
    (hsha : sha.NoCollision contents) (hreads : state.Reads a) :
    ∃ pieces sent, Sends state chunks.flatten pieces sent ∧ sendSlice s.store state =
      .ok (state.advance sent, pieces.map (dataFrame state.reqId), sent) := by
  obtain ⟨hns, hname, hversion⟩ : state.ns = a.ns ∧ state.name = a.name ∧
      state.version = a.version := by
    have href := hreads.ref
    simpa only [ArtifactRow.ref, Prod.mk.injEq] using href
  unfold sendSlice
  dsimp only
  generalize hslice : (if dataSliceBytes < state.remaining then dataSliceBytes else
    state.remaining) = slice
  have hmin : slice.toNat = min dataSliceBytes.toNat state.remaining.toNat := by
    rw [← hslice, toNat_min]
  split
  · rename_i hzero
    have hmin' : min dataSliceBytes.toNat state.remaining.toNat = 0 := by
      rw [← hmin, hzero, UInt64.toNat_zero]
    refine ⟨[], 0, ⟨?_, rfl, by simp [DataSized]⟩, ?_⟩
    · rw [hmin', List.take_zero, List.flatten_nil]
    · simp [GetState.advance]
  · obtain ⟨pieces, sent, hrun, hpieces, hsent, hnonempty⟩ := readArtifactSlice_run havail.inv hsha
      havail.row havail.depicts hreads.offset slice
    rw [hmin] at hpieces
    have hsized : DataSized pieces := by
      intro piece hpiece
      have hle := List.single_le_sum (l := pieces.map List.length) (by simp) piece.length
        (List.mem_map_of_mem (f := List.length) hpiece)
      rw [← List.length_flatten, hpieces, List.length_take] at hle
      exact ⟨List.length_pos_iff.mpr (hnonempty piece hpiece), by omega⟩
    have hmax : dataSliceBytes.toNat ≤ frFrameMaxPayload := by decide
    refine ⟨pieces, sent, ⟨hpieces, hsent, hsized⟩, ?_⟩
    rw [← hns, ← hname, ← hversion] at hrun
    rw [hrun]
    dsimp only
    rw [emit_dataFrames hreads.reqId fun data hdata => (hsized data hdata).2.trans hmax]
    rfl

theorem Sends.rest {content : Bytes} {pieces : List Bytes} {sent : UInt64}
    (h : Sends state content pieces sent) (hoffset : state.offset.toNat ≤ content.length)
    (hsize : content.length < 2^64) :
    state.rest content = pieces.flatten ++ (state.advance sent).rest content ∧
      (state.advance sent).offset.toNat = state.offset.toNat + sent.toNat ∧
      (state.advance sent).offset.toNat ≤ content.length ∧
      (state.advance sent).remaining.toNat = state.remaining.toNat - sent.toNat ∧
      (sent = 0 → state.rest content = []) := by
  have hlength := h.length
  rw [h.eq, List.length_take, List.length_drop] at hlength
  have hoffset' : (state.advance sent).offset.toNat = state.offset.toNat + sent.toNat := by
    change (state.offset + sent).toNat = _
    rw [UInt64.toNat_add]
    omega
  have hremaining : (state.advance sent).remaining.toNat = state.remaining.toNat - sent.toNat :=
    UInt64.toNat_sub_of_le _ _ (UInt64.le_iff_toNat_le.mpr (by omega))
  have hpieces : pieces.flatten = (content.drop state.offset.toNat).take sent.toNat := by
    rw [h.eq, hlength, ← List.length_drop, ← List.take_eq_take_min]
  refine ⟨?_, hoffset', by omega, hremaining, fun hzero => ?_⟩
  · rw [GetState.rest, GetState.rest, hoffset', hremaining, hpieces, ← List.drop_drop,
      ← List.take_add]
    congr 1
    omega
  · rw [hzero, UInt64.toNat_zero] at hlength
    have hslice : dataSliceBytes.toNat = 1024 * 1024 := by decide
    rw [GetState.rest, List.take_eq_nil_iff, List.drop_eq_nil_iff]
    omega

theorem Sends.reads {content : Bytes} {pieces : List Bytes} {sent : UInt64}
    (h : Sends state content pieces sent) (hreads : state.Reads a)
    (hsize : a.size.toNat = content.length) : (state.advance sent).Reads a := by
  have hoffset := UInt64.le_iff_toNat_le.mp hreads.offset
  have hsent := UInt64.le_iff_toNat_le.mp hreads.sent
  have hlt := a.size.toNat_lt
  obtain ⟨-, hadvance, hle, -, -⟩ := h.rest (by omega) (by omega)
  refine ⟨hreads.ref, UInt64.le_iff_toNat_le.mpr (by omega), ?_, hreads.reqId⟩
  have hsum : (state.advance sent).sent.toNat = (state.sent.toNat + sent.toNat) % 2^64 :=
    UInt64.toNat_add _ _
  exact UInt64.le_iff_toNat_le.mpr (by omega)

theorem handleGetContinue_run (hsha : sha.NoCollision contents)
    (havail : Available sha contents a chunks s.store) (hget : s.gets key = some state)
    (hreads : state.Reads a) : ∃ pieces sent, Sends state chunks.flatten pieces sent ∧
      (handleGetContinue key).run s =
        if (state.advance sent).remaining = 0 ∨ sent = 0 then
          (.ok { HandleResult.empty with
            out := pieces.map (dataFrame state.reqId) ++
              [lastFrame state.reqId (state.advance sent).sent] },
            { s with gets := Function.update s.gets key none })
        else
          (.ok { HandleResult.empty with
            out := pieces.map (dataFrame state.reqId), hasMore := true, continuationKey := key },
            { s with gets := Function.update s.gets key (some (state.advance sent)) }) := by
  obtain ⟨pieces, sent, hsends, hslice⟩ := sendSlice_run havail hsha hreads
  refine ⟨pieces, sent, hsends, ?_⟩
  rw [handleGetContinue, Prog.run_lift, hget]
  dsimp only
  rw [hslice]
  dsimp only
  split
  · rw [show (state.advance sent).reqId = state.reqId from rfl, endOfGet_eq hreads.reqId]
  · rfl

theorem startGet_run {connId : Nat} {frame : FrFrame} {req : GetArtifactReq}
    (hsha : sha.NoCollision contents) (hkey : getKey connId s.getSeq = key)
    (hfresh : s.gets key = none) (havail : Available sha contents a chunks s.store)
    (hreads : (newGet frame req).Reads a) :
    ∃ pieces sent, Sends (newGet frame req) chunks.flatten pieces sent ∧
      (startGet connId frame req).run s =
        if ((newGet frame req).advance sent).remaining = 0 then
          (.ok { HandleResult.empty with
            out := pieces.map (dataFrame (outReqId frame)) ++
              [lastFrame (outReqId frame) ((newGet frame req).advance sent).sent] },
            { s with getSeq := s.getSeq + 1, gets := Function.update s.gets key none })
        else
          (.ok { HandleResult.empty with
            out := pieces.map (dataFrame (outReqId frame)), hasMore := true,
            continuationKey := key },
            { s with
              getSeq := s.getSeq + 1
              gets := Function.update s.gets key (some ((newGet frame req).advance sent)) }) := by
  obtain ⟨pieces, sent, hsends, hslice⟩ := sendSlice_run havail hsha hreads
  refine ⟨pieces, sent, hsends, ?_⟩
  rw [startGet, Prog.run_lift]
  dsimp only
  rw [hkey, hfresh, Option.getD_none]
  rw [newGet] at hslice ⊢
  rw [hslice]
  dsimp only
  split
  · rw [endOfGet_eq (outReqId_ne_zero _), Function.update_idem]
  · rw [Function.update_idem]

/-- What the rest of a chain sends, and the service behind it. -/
structure Streams (state : GetState) (content : Bytes) (key : Bytes) (pieces : List Bytes)
    (sent : UInt64) (s : Service) : Prop where
  eq : pieces.flatten = state.rest content
  sent : sent.toNat = state.sent.toNat + pieces.flatten.length
  sized : DataSized pieces
  gone : s.gets key = none

theorem Sends.streams {content : Bytes} {pieces rest : List Bytes} {sent total : UInt64}
    (h : Sends state content pieces sent) (hreads : state.Reads a)
    (hsize : a.size.toNat = content.length)
    (hrest : Streams (state.advance sent) content key rest total s) :
    Streams state content key (pieces ++ rest) total s := by
  have hoffset := UInt64.le_iff_toNat_le.mp hreads.offset
  have hsent := UInt64.le_iff_toNat_le.mp hreads.sent
  have hlt := a.size.toNat_lt
  obtain ⟨hsplit, hadvance, hle, -, -⟩ := h.rest (by omega) (by omega)
  have hsum : (state.advance sent).sent.toNat = (state.sent.toNat + sent.toNat) % 2^64 :=
    UInt64.toNat_add _ _
  have htotal := hrest.sent
  have hlength := h.length
  refine ⟨?_, ?_, fun piece hpiece => ?_, hrest.gone⟩
  · rw [List.flatten_append, hrest.eq, ← hsplit]
  · rw [List.flatten_append, List.length_append]
    omega
  · exact (List.mem_append.mp hpiece).elim (h.sized piece) (hrest.sized piece)

theorem Sends.streams_last {content : Bytes} {pieces : List Bytes} {sent : UInt64}
    (h : Sends state content pieces sent) (hreads : state.Reads a)
    (hsize : a.size.toNat = content.length) (hgone : s.gets key = none)
    (hend : (state.advance sent).remaining = 0 ∨ sent = 0) :
    Streams state content key pieces (state.advance sent).sent s := by
  have hoffset := UInt64.le_iff_toNat_le.mp hreads.offset
  have hlt := a.size.toNat_lt
  obtain ⟨hsplit, -, -, -, hzero⟩ := h.rest (by omega) (by omega)
  have hnil : (state.advance sent).rest content = [] := by
    rcases hend with hend | rfl
    · rw [GetState.rest, hend, UInt64.toNat_zero, List.take_zero]
    · have hsame : state.advance 0 = state := by simp [GetState.advance]
      rw [hsame, hzero rfl]
  have hlast : Streams (state.advance sent) content key [] (state.advance sent).sent s :=
    ⟨hnil.symm, rfl, by simp [DataSized], hgone⟩
  have hall := h.streams hreads hsize hlast
  rwa [List.append_nil] at hall

/-- The chain from a continuation on. It ends because a slice that does not end the download makes
less of it remain. -/
private theorem serveChain_continuation (env : Nat → RequestEnv) (session : ClientSession)
    (hsha : sha.NoCollision contents)
    (hbetween : ∀ n s, Elsewhere sha contents a.ref key s (between n s))
    (hkind : task.isGetContinue = true) (hkey : task.getKey = key)
    (havail : Available sha contents a chunks s.store) (hget : s.gets key = some state)
    (hreads : state.Reads a) :
    ∃ fuel pieces sent s', Streams state chunks.flatten key pieces sent s' ∧
      serveChain sha env session between fuel n task s =
        some (pieces.map (dataFrame state.reqId) ++ [lastFrame state.reqId sent], s') := by
  induction hremaining : state.remaining.toNat using Nat.strong_induction_on
    generalizing state s n task with
  | _ remaining ih =>
    subst hremaining hkey
    have hsize := havail.depicts.size
    have hoffset := UInt64.le_iff_toNat_le.mp hreads.offset
    have hlt := a.size.toNat_lt
    obtain ⟨pieces, sent, hsends, hrun⟩ := handleGetContinue_run hsha havail hget hreads
    obtain ⟨-, -, -, hremaining, -⟩ := hsends.rest (by omega) (by omega)
    by_cases hend : (state.advance sent).remaining = 0 ∨ sent = 0
    · -- the last slice
      rw [if_pos hend] at hrun
      refine ⟨1, pieces, (state.advance sent).sent,
        { s with gets := Function.update s.gets task.getKey none },
        hsends.streams_last hreads hsize (Function.update_self _ _ _) hend, ?_⟩
      rw [serveChain, handleTask, if_pos hkind, hrun]
      rfl
    · -- one more slice
      rw [if_neg hend] at hrun
      rw [not_or] at hend
      have hsent : sent.toNat ≠ 0 := fun h => hend.2 (UInt64.toNat_inj.mp h)
      have hmore : (state.advance sent).remaining.toNat ≠ 0 := fun h =>
        hend.1 (UInt64.toNat_inj.mp h)
      obtain ⟨s₁, hs₁⟩ : ∃ s₁ : Service, s₁ = { s with
        gets := Function.update s.gets task.getKey (some (state.advance sent)) } := ⟨_, rfl⟩
      have havail₁ : Available sha contents a chunks s₁.store := hs₁ ▸ havail
      have hget₁ : s₁.gets task.getKey = some (state.advance sent) := by
        rw [hs₁]
        exact Function.update_self _ _ _
      have helse := hbetween n s₁
      obtain ⟨fuel, rest, total, s', hstreams, hchain⟩ := ih
        (state.advance sent).remaining.toNat (by omega) (n := n + 1)
        (show (task.continuation task.getKey).isGetContinue = true from rfl) rfl
        (havail₁.elsewhere helse)
        (helse.get.trans hget₁) (hsends.reads hreads hsize) rfl
      refine ⟨fuel + 1, pieces ++ rest, total, s', hsends.streams hreads hsize hstreams, ?_⟩
      rw [serveChain, handleTask, if_pos hkind, hrun, ← hs₁]
      dsimp only [workerResult]
      rw [if_pos rfl, hchain, Option.map_some, List.map_append, List.append_assoc]
      rfl

theorem handle_getArtifact {env : RequestEnv} {connId : Nat} {peer : Bytes}
    {frame : FrFrame} {req : GetArtifactReq} {result : HandleResult}
    (htype : FrMsgType.ofByte frame.type = some .getArtifact) (hauth : session.authenticated = true)
    (hreq : decodeFrame decodeGetArtifactReq frame = .ok req)
    (hrun : (startGet connId frame req).run s = (.ok result, s')) :
    (handle sha env connId peer session frame).run s = (.ok (result, session), s') := by
  have hrole : requireRole session .reader = .ok () := by
    unfold requireRole
    rw [if_neg (by simp [hauth])]
    split
    · rfl
    · simp
  have hbusiness : (dispatchBusiness sha env connId session frame).run s = (.ok result, s') := by
    rw [dispatchBusiness, htype]
    change (handleGetArtifact connId session frame).run s = _
    rw [handleGetArtifact, hrole, decode, hreq]
    exact hrun
  have hframe : (handleFrame sha env connId peer session frame).run s =
      (.ok (session, .ok result), s') := by
    rw [handleFrame, htype]
    dsimp only
    rw [if_neg (by simp [hauth]), Prog.run_bind, outcome_run, hbusiness]
    rfl
  rw [handle, Prog.run_bind, hframe]
  rfl

private theorem serveChain_request {req : GetArtifactReq} (env : Nat → RequestEnv)
    (hsha : sha.NoCollision contents) (hkind : task.isGetContinue = false)
    (htype : FrMsgType.ofByte task.type = some .getArtifact) (hauth : session.authenticated = true)
    (hreq : decodeFrame decodeGetArtifactReq task.frame = .ok req)
    (hkey : getKey task.connId s.getSeq = key) (hfresh : s.gets key = none)
    (hbetween : ∀ n s, Elsewhere sha contents a.ref key s (between n s))
    (havail : Available sha contents a chunks s.store) (hreads : (newGet task.frame req).Reads a) :
    ∃ fuel pieces sent s', Streams (newGet task.frame req) chunks.flatten key pieces sent s' ∧
      serveChain sha env session between fuel n task s =
        some (pieces.map (dataFrame (outReqId task.frame)) ++
          [lastFrame (outReqId task.frame) sent], s') := by
  have hsize := havail.depicts.size
  obtain ⟨pieces, sent, hsends, hrun⟩ := startGet_run hsha hkey hfresh havail hreads
  by_cases hend : ((newGet task.frame req).advance sent).remaining = 0
  · rw [if_pos hend] at hrun
    refine ⟨1, pieces, ((newGet task.frame req).advance sent).sent,
      { s with getSeq := s.getSeq + 1, gets := Function.update s.gets key none },
      hsends.streams_last hreads hsize (Function.update_self _ _ _) (.inl hend), ?_⟩
    rw [serveChain, handleTask, if_neg (by simp [hkind]), handle_getArtifact htype hauth hreq hrun]
    rfl
  · rw [if_neg hend] at hrun
    obtain ⟨s₁, hs₁⟩ : ∃ s₁ : Service, s₁ = { s with
      getSeq := s.getSeq + 1
      gets := Function.update s.gets key (some ((newGet task.frame req).advance sent)) } := ⟨_, rfl⟩
    have havail₁ : Available sha contents a chunks s₁.store := hs₁ ▸ havail
    have hget₁ : s₁.gets key = some ((newGet task.frame req).advance sent) := by
      rw [hs₁]
      exact Function.update_self _ _ _
    have helse := hbetween n s₁
    obtain ⟨fuel, rest, total, s', hstreams, hchain⟩ := serveChain_continuation (n := n + 1)
      env session hsha hbetween (show (task.continuation key).isGetContinue = true from rfl) rfl
      (havail₁.elsewhere helse) (helse.get.trans hget₁)
      (hsends.reads hreads hsize)
    refine ⟨fuel + 1, pieces ++ rest, total, s', hsends.streams hreads hsize hstreams, ?_⟩
    rw [serveChain, handleTask, if_neg (by simp [hkind]), handle_getArtifact htype hauth hreq hrun,
      ← hs₁]
    dsimp only [workerResult, Except.map]
    rw [if_pos rfl, hchain, Option.map_some, List.map_append, List.append_assoc]
    rfl

/-- The chain of a GET_ARTIFACT for an artifact that stays ends; its DATA frames are the part of the
artifact that is asked for, as far as there is one, the OK frame behind them tells their length, and
nothing of the download is left. -/
theorem getArtifact_streams {events : List Event} {config : Option StorageConfig}
    {req : GetArtifactReq} (hstore : Trace.Run (System.Step sha anywhere) .initial events
      ⟨s.store, config⟩)
    (hput : putData events ⊆ contents) (hsha : sha.NoCollision contents)
    (hreached : Service.Reached sha n s) (hn : n < 2^64) (ha : a ∈ s.store.db.artifact)
    (hkind : task.isGetContinue = false)
    (htype : FrMsgType.ofByte task.type = some .getArtifact) (hauth : session.authenticated = true)
    (hreq : decodeFrame decodeGetArtifactReq task.frame = .ok req)
    (href : (req.ref.ns, req.ref.name, req.ref.version) = a.ref) (hoffset : req.offset ≤ a.size)
    (hbetween : ∀ i s', Elsewhere sha contents a.ref (getKey task.connId s.getSeq) s'
      (between i s')) :
    ∃ chunks, Intact sha s.store a chunks ∧ ∃ fuel, ∃ pieces : List Bytes, ∃ sent s',
      serveChain sha env session between fuel 0 task s =
        some (pieces.map (dataFrame (outReqId task.frame)) ++
          [lastFrame (outReqId task.frame) sent], s') ∧
      pieces.flatten = (chunks.flatten.drop req.offset.toNat).take req.length.toNat ∧
      (∀ piece ∈ pieces, 1 ≤ piece.length ∧ piece.length ≤ 1048576) ∧
      sent.toNat = pieces.flatten.length ∧ s'.gets (getKey task.connId s.getSeq) = none := by
  have hkept := System.run_kept hstore anywhere_harmless hput (.empty _ _ _)
  obtain ⟨chunks, hdepicts⟩ := hkept.inv.depicted hsha a ha
  have hreads : (newGet task.frame req).Reads a :=
    ⟨href, hoffset, UInt64.zero_le, outReqId_ne_zero _⟩
  obtain ⟨fuel, pieces, sent, s', hstreams, hchain⟩ := serveChain_request (n := 0) env hsha
    hkind htype hauth hreq rfl ((hreached.kept hn).1.fresh task.connId) hbetween
      ⟨hkept.inv, ha, hdepicts⟩ hreads
  exact ⟨chunks, hkept.inv.intact hsha hdepicts, fuel, pieces, sent, s', hchain, hstreams.eq,
    hstreams.sized, hstreams.sent.trans (Nat.zero_add _), hstreams.gone⟩

/-- `bob` on a connection. -/
def sampleReader : ClientSession := ⟨true, true, ascii "bob", .reader, 0⟩

/-- His request for the sample artifact, for one byte more than there is. -/
def sampleGetTask : Task :=
  ⟨1, [], (sampleGet 2).type, (sampleGet 2).reqId, (sampleGet 2).payload, false, []⟩

/-- Two tasks answer the request. -/
theorem getArtifact_streams_sample :
    ∃ chunks fuel, ∃ pieces : List Bytes, ∃ sent s',
      serveChain sampleSha (fun _ => sampleRequestEnv 3) sampleReader (fun _ s => s) fuel 0
          sampleGetTask sampleArchive =
        some (pieces.map (dataFrame 9) ++ [lastFrame 9 sent], s') ∧
      pieces.flatten = (List.flatten chunks).take 2 ∧
      (∀ piece ∈ pieces, 1 ≤ piece.length ∧ piece.length ≤ 1048576) := by
  have hdata : (played sampleSha samplePublish).1.filterMap Event.chunk? = [ascii "a"] := by
    decide +kernel
  have hput : putData (played sampleSha samplePublish).1 = {ascii "a"} := by
    ext data
    simp [putData, hdata]
  have hrun : Trace.Run (System.Step sampleSha anywhere) .initial (played sampleSha samplePublish).1
      (played sampleSha samplePublish).2 :=
    played_run (fun _ _ => .inr fun _ _ => trivial) (by decide +kernel)
  obtain ⟨a, ha, href, hsize⟩ : ∃ a ∈ sampleArchive.store.db.artifact,
      (ascii "team", ascii "app", ascii "1.0") = a.ref ∧ (0 : UInt64) ≤ a.size := by
    decide +kernel
  have helse : ∀ (i : Nat) (s : Service), Elsewhere sampleSha {ascii "a"} a.ref
      (getKey sampleGetTask.connId sampleArchive.getSeq) s s := fun _ s =>
    ⟨rfl, none, none, [], .nil _, by simp [putData], by simp⟩
  obtain ⟨chunks, -, fuel, pieces, sent, s', hchain, hpieces, hsized, -, -⟩ :=
    @getArtifact_streams sampleSha {ascii "a"} (fun _ => sampleRequestEnv 3) sampleReader
      (fun _ s => s) a sampleArchive sampleGetTask 0 _ _
      ⟨⟨ascii "team", ascii "app", ascii "1.0"⟩, 0, 2⟩ hrun hput.le
      (Set.subsingleton_singleton.injOn _) (.start _ _) (by decide) ha rfl (by decide +kernel) rfl
      (by decide +kernel) href hsize helse
  exact ⟨chunks, fuel, pieces, sent, s', hchain, hpieces, hsized⟩

end ForgeRelay
