import ForgeRelay.Service.Authorization
import ForgeRelay.Service.Connections
import ForgeRelay.Storage.Durability
import ForgeRelay.Storage.Steps

/-!
# Which calls of storage a request makes

A request does to storage what the calls do that it asks for. So storage keeps its invariant under
every run of requests, and no artifact goes but those whose deletion is requested.
-/

namespace ForgeRelay

open Program

/-- The chunk that a request brings along. -/
def FrFrame.chunk? (frame : FrFrame) : Option Bytes :=
  if FrMsgType.ofByte frame.type = some .putChunk then
    (decodeFrame decodePutChunkReq frame).toOption.map (·.data)
  else none

/-- The artifact whose deletion is requested. -/
def FrFrame.deletes? (frame : FrFrame) : Option ArtifactRef :=
  if FrMsgType.ofByte frame.type = some .deleteArtifact then
    (decodeFrame decodeRef frame).toOption
  else none

/-- The chunk of such a call and the artifact that it deletes are those of the request. -/
def FrFrame.Asks (frame : FrFrame) : Call → Prop
  | .putChunk _ _ data => frame.chunk? = some data
  | .deleteArtifact ns name version => frame.deletes? = some ⟨ns, name, version⟩
  | _ => True

section Handlers

variable {P : Store → Prop} {sha : Sha256} {env : RequestEnv} {connId : Nat} {peer : Bytes}
  {session : ClientSession} {frame : FrFrame} {sec : Section} {α β : Type}

theorem run_forget (p : StorageM α) (s : Store) :
    ((do let _ ← p : StorageM Unit).run s).2 = (p.run s).2 := by
  rw [Prog.run_bind]
  rcases p.run s with ⟨e | a, s'⟩ <;> rfl

theorem Keeps.call {p : StorageM α} {call : StorageM Unit}
    (hcall : ∀ s, P s → P (call.run s).2) (hp : ∀ s, (call.run s).2 = (p.run s).2) :
    Keeps (fun s => P s.store) (ForgeRelay.onStore sec p) := by
  intro s hs
  rw [ForgeRelay.onStore, Prog.run_lift]
  exact hp s.store ▸ hcall s.store hs

private theorem Keeps.reading {p : StorageM α} (hp : ReadOnly p) :
    Keeps (fun s => P s.store) (ForgeRelay.onStore sec p) := by
  intro s hs
  rw [ForgeRelay.onStore, Prog.run_lift]
  exact (hp s.store).symm ▸ hs

private theorem Keeps.checked {p : StorageM β} {k : β → StorageM α} (hp : ReadOnly p)
    (hk : ∀ b, Keeps (fun s => P s.store) (ForgeRelay.onStore sec (k b))) :
    Keeps (fun s => P s.store) (ForgeRelay.onStore sec (p >>= k)) := by
  intro s hs
  have hread := hp s.store
  rw [ForgeRelay.onStore, Prog.run_lift]
  change P ((p >>= k).run s.store).2
  rw [Prog.run_bind]
  rcases hrun : p.run s.store with ⟨e | b, store⟩
  all_goals
    rw [hrun] at hread
    obtain rfl : store = s.store := hread
  · exact hs
  · have hkept := hk b s hs
    rwa [ForgeRelay.onStore, Prog.run_lift] at hkept

theorem Keeps.update {f : AuthDb → Except Error (α × AuthDb)} :
    Keeps (fun s => P s.store) (ForgeRelay.registryUpdate f) :=
  .registryUpdate fun _ _ _ hs _ => hs

private theorem Keeps.decoded {P : Service → Prop} {dec : MsgDecoder α} {k : α → ServiceM β}
    (hk : ∀ a, decodeFrame dec frame = .ok a → Keeps P (k a)) :
    Keeps P (decode dec frame >>= k) := by
  intro s hs
  unfold decode
  cases hdecode : decodeFrame dec frame with
  | error e => exact hs
  | ok a => exact hk a hdecode s hs

private theorem handleAbortUpload_calls {sessionId : Bytes}
    (hcall : ∀ s, P s → P ((abortSession env.call sessionId).run s).2) :
    Keeps (fun s => P s.store) (.lift .mutex fun s =>
      match (getAllowedSession session sessionId >>= fun _ => abortSession env.call sessionId).run
        s.store with
      | (.ok _, store) => (.ok (), { s with
          store := store
          auth := auditOk env session (ascii "session.abort") sessionId s.auth })
      | (.error e, store) => (.error e, { s with store := store })) := by
  intro s hs
  have hkeeps : Keeps (fun s => P s.store) (locked
      (getAllowedSession session sessionId >>= fun _ => abortSession env.call sessionId)) :=
    .checked (getAllowedSession_readOnly _ _) fun _ => .call hcall fun _ => rfl
  have hkept := hkeeps s hs
  rw [locked, onStore, Prog.run_lift] at hkept
  rw [Prog.run_lift]
  split <;>
  · rename_i hrun
    rw [hrun] at hkept
    exact hkept

private theorem dispatchBusiness_calls
    (hcall : ∀ call : Call, frame.Asks call → ∀ s, P s →
      P ((call.program sha env.cfg env.call).run s).2) :
    Keeps (fun s => P s.store) (dispatchBusiness sha env connId session frame) := by
  unfold dispatchBusiness
  split
  · exact .bind (.ofExcept _) fun _ => .bind (.ofExcept _) fun req => .bind
      (.call (hcall (.createSession req.ref.ns req.ref.name req.ref.version req.expectedSize
        req.expectedDigest session.username) trivial) (run_forget _)) fun _ => .reply
  · rename_i htype
    refine .decoded fun req hreq => .bind (.reading (getAllowedSession_readOnly _ _)) fun _ =>
      .bind (.call (hcall (.putChunk req.sessionId req.ordinal req.data) ?_) (run_forget _))
        fun _ => .reply
    simp only [FrFrame.Asks, FrFrame.chunk?, htype, if_true, hreq, Except.toOption, Option.map_some]
  · refine .bind (.ofExcept _) fun _ => .bind (.reading ?_) fun _ => ?_
    · exact .bind (getAllowedSession_readOnly _ _) fun _ => .bind (sessionProgress_readOnly _)
        fun _ => .pure _
    · dsimp only
      split
      · exact .throw _
      · exact .reply
  · exact .bind (.ofExcept _) fun sessionId => .bind
      (.checked (getAllowedSession_readOnly _ _) fun _ =>
        .call (hcall (.commitSession sessionId) trivial) (run_forget _)) fun _ => .reply
  · exact .bind (.ofExcept _) fun sessionId => .bind
      (handleAbortUpload_calls (hcall (.abortSession sessionId) trivial)) fun _ => .pure _
  · exact .bind (.ofExcept _) fun _ => .bind (.ofExcept _) fun _ => startGet_keeps id
  · exact .bind (.ofExcept _) fun _ => .bind (.ofExcept _) fun _ =>
      .bind (.reading (listArtifacts_readOnly _ _ _ _)) fun _ => .reply
  · exact .bind (.ofExcept _) fun _ => .bind (.ofExcept _) fun _ =>
      .bind (.reading (showArtifact_readOnly _ _ _)) fun _ => .reply
  · refine .bind (.ofExcept _) fun _ => .bind (.reading ?_) fun _ => .bind (fun s hs => ?_)
      fun _ => .reply
    · exact .bind (.select _) fun _ => .bind usedBytes_readOnly fun _ => .pure _
    · rw [Prog.run_lift]
      exact hs
  · rename_i htype
    refine .decoded fun ref href => .bind (.reading (requireDeleteAllowed_readOnly _ _))
      fun _ => .bind (.call (hcall (.deleteArtifact ref.ns ref.name ref.version) ?_) (run_forget _))
        fun _ => .bind .update fun _ => .reply
    simp only [FrFrame.Asks, FrFrame.deletes?, htype, if_true, href, Except.toOption]
  · exact .bind (.ofExcept _) fun _ => .bind (.ofExcept _) fun req =>
      .bind (.call (hcall (.collectGarbage req.dryRun) trivial) (run_forget _)) fun _ =>
      .bind .update fun _ => .reply
  · exact .bind (.ofExcept _) fun _ => .bind (.ofExcept _) fun _ => .bind .update fun _ =>
      .bind .update fun _ => .pure _
  · exact .bind (.ofExcept _) fun _ => .bind (.ofExcept _) fun _ => .bind .update fun _ =>
      .bind .update fun _ => .pure _
  · exact .bind (.ofExcept _) fun _ => .bind .registry fun _ => .reply
  · exact .bind (.ofExcept _) fun _ => .bind (.ofExcept _) fun _ => .bind .update fun _ =>
      .bind .update fun _ => .reply
  · exact .bind (.ofExcept _) fun _ => .bind (.ofExcept _) fun _ => .bind .update fun _ =>
      .bind .update fun _ => .pure _
  · exact .bind (.ofExcept _) fun _ => .bind (.ofExcept _) fun _ => .bind .registry fun _ => .reply
  · exact .bind (.ofExcept _) fun _ => .bind (.reading (listSessions_readOnly _)) fun _ => .reply
  · exact .bind (.ofExcept _) fun _ => .bind (.ofExcept _) fun sessionId =>
      .bind (.call (hcall (.abortSession sessionId) trivial) fun _ => rfl) fun _ =>
      .bind .update fun _ => .pure _
  · exact .throw _

private theorem handle_calls
    (hcall : ∀ call : Call, frame.Asks call → ∀ s, P s →
      P ((call.program sha env.cfg env.call).run s).2) :
    Keeps (fun s => P s.store) (handle sha env connId peer session frame) :=
  handle_keeps_of (dispatchBusiness_calls hcall) fun _ _ _ => id

theorem handle_stored {B : Bound Store Error} {VL : UInt64 → Prop}
    (hB : ∀ now, Allows now B (fun _ => True) VL) :
    Keeps (fun s => B.inv s.store) (handle sha env connId peer session frame) :=
  handle_calls fun call _ _ hs =>
    (((hB env.call.now).program sha env.cfg env.call rfl (fun _ _ _ => trivial) call).run hs).1.2

end Handlers

namespace ClientEvent

def chunk? : ClientEvent → Option Bytes
  | request _ _ _ frame => frame.chunk?
  | _ => none

def deletes? : ClientEvent → Option ArtifactRef
  | request _ _ _ frame => frame.deletes?
  | _ => none

/-- The artifact goes by this name. -/
def Deletes (e : ClientEvent) (a : ArtifactRow) : Prop :=
  e.deletes? = some ⟨a.ns, a.name, a.version⟩

end ClientEvent

/-- The chunks that the requests bring along are among these. -/
def Bring (contents : Set Bytes) (events : List ClientEvent) : Prop :=
  ∀ e ∈ events, ∀ data, e.chunk? = some data → data ∈ contents

theorem bring_iff {contents : Set Bytes} {events : List ClientEvent} :
    Bring contents events ↔ ∀ data ∈ events.filterMap (·.chunk?), data ∈ contents := by
  simp only [Bring, List.mem_filterMap, forall_exists_index, and_imp]
  exact ⟨fun h data e he hdata => h e he data hdata, fun h e he data hdata => h data e he hdata⟩

variable {sha : Sha256} {contents leaked : Set Bytes} {gone : ArtifactRow → Prop} {s₀ s : Store}

theorem Kept.refl (h : StoreInv sha contents leaked s) : Kept sha contents leaked gone s s :=
  ⟨h, (SameArtifacts.refl _).evolves⟩

theorem Kept.trans {s' : Store} (h : Kept sha contents leaked gone s₀ s)
    (h' : Kept sha contents leaked gone s s') : Kept sha contents leaked gone s₀ s' :=
  ⟨h'.inv, h.evolves.trans h'.evolves⟩

theorem Kept.mono {gone' : ArtifactRow → Prop} (h : Kept sha contents leaked gone s₀ s)
    (himp : ∀ a, gone a → gone' a) : Kept sha contents leaked gone' s₀ s :=
  ⟨h.inv, h.evolves.mono himp⟩

private theorem nowhere_harmless : Harmless sha contents leaked fun _ _ => False :=
  fun _ _ h => h.elim

theorem Call.run_kept (call : Call) (cfg : StorageConfig) (env : CallEnv)
    (hput : ∀ id ordinal data, call = .putChunk id ordinal data → data ∈ contents)
    (hremoves : ∀ a, call.removes a → gone a) (h : Kept sha contents leaked gone s₀ s) :
    Kept sha contents leaked gone s₀ ((call.program sha cfg env).run s).2 := by
  have hwp : (call.program sha cfg env).wp (fun _ _ => False) _ _ s :=
    call.program_wp nowhere_harmless hput h.inv
  have hend := Prog.wp_run.mp hwp
  have hkept : Kept sha contents leaked call.removes s ((call.program sha cfg env).run s).2 := by
    cases hresult : ((call.program sha cfg env).run s).1 with
    | error e =>
      rw [hresult] at hend
      exact hend
    | ok u =>
      rw [hresult] at hend
      exact hend
  exact h.trans (hkept.mono hremoves)

namespace Clients

variable {P : Store → Prop} {c : Clients}

theorem next_calls {e : ClientEvent}
    (hrequest : ∀ connId env peer frame, e = .request connId env peer frame →
      ∀ call : Call, frame.Asks call → ∀ s, P s → P ((call.program sha env.cfg env.call).run s).2)
    (hmaintenance : ∀ env, e = .maintenance env → ∀ s, P s → P ((runMaintenance env).run s).2)
    (h : P c.service.store) : P (c.next sha e).service.store := by
  cases e with
  | connect connId =>
    rw [next]
    split <;> exact h
  | request connId env peer frame =>
    cases hsession : c.sessions connId with
    | none => simpa [next, hsession] using h
    | some session =>
      have hrun : P ((handle sha env connId peer session frame).run c.service).2.store :=
        handle_calls (hrequest _ _ _ _ rfl) c.service h
      rw [next, hsession]
      dsimp only
      split <;> rename_i hresult <;> rw [hresult] at hrun <;> exact hrun
  | resume key => exact handleGetContinue_keeps (P := fun s => P s.store) id key c.service h
  | maintenance env => exact hmaintenance env rfl _ h
  | disconnect connId => exact h

private theorem next_kept {e : ClientEvent}
    (hchunk : ∀ data, e.chunk? = some data → data ∈ contents)
    (hgone : ∀ a, e.Deletes a → gone a) (h : Kept sha contents leaked gone s₀ c.service.store) :
    Kept sha contents leaked gone s₀ (c.next sha e).service.store := by
  refine next_calls ?_ ?_ h
  · rintro connId env peer frame rfl call hasks s hs
    refine call.run_kept env.cfg env.call ?_ ?_ hs
    · rintro id ordinal data rfl
      exact hchunk data hasks
    · intro a ha
      cases call with
      | deleteArtifact ns name version =>
        obtain ⟨rfl, rfl, rfl⟩ : a.ns = ns ∧ a.name = name ∧ a.version = version := by
          simpa [Call.removes, ArtifactRow.ref] using ha
        exact hgone a hasks
      | _ => exact ha.elim
  · rintro env rfl s hs
    -- a maintenance reads no configuration
    have hput : ∀ id ordinal data, Call.runMaintenance = .putChunk id ordinal data →
        data ∈ contents := by
      intro id ordinal data hcall
      cases hcall
    have hkept := Call.run_kept .runMaintenance sampleConfig env hput (fun _ => False.elim) hs
    rwa [Call.program, run_forget] at hkept

theorem run_kept {events : List ClientEvent} (hbring : Bring contents events)
    (h : StoreInv sha contents leaked c.service.store) :
    Kept sha contents leaked (fun a => ∃ e ∈ events, e.Deletes a) c.service.store
      (c.run sha events).service.store := by
  induction events generalizing c with
  | nil => exact .refl h
  | cons e events ih =>
    obtain ⟨hfirst, hrest⟩ := List.forall_mem_cons.mp hbring
    have hstep : Kept sha contents leaked e.Deletes c.service.store
        (c.next sha e).service.store := next_kept hfirst (fun _ ha => ha) (.refl h)
    have htail := ih hrest hstep.inv
    refine (hstep.mono fun a ha => ⟨e, List.mem_cons_self, ha⟩).trans (htail.mono ?_)
    rintro a ⟨e', he', ha⟩
    exact ⟨e', List.mem_cons_of_mem _ he', ha⟩

end Clients

end ForgeRelay
