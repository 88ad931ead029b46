import ForgeRelay.Client.Dialogue
import ForgeRelay.Core.FrameStream
import ForgeRelay.Service.Calls

/-!
# The server behind a connection

What a client is told has been said by the handler of its request, at some moment: others may have
been served before it.
-/

namespace ForgeRelay

open Program Prog

variable {sha : Sha256} {env : RequestEnv} {connId : Nat} {peer : Bytes}
  {session session' : ClientSession} {frame reply : FrFrame} {result : HandleResult}
  {s s' : Service}

theorem onStore_ok {α : Type} {sec : Section} {p : StorageM α} {a : α}
    (h : (onStore sec p).run s = (.ok a, s')) : p.run s.store = (.ok a, s'.store) := by
  rw [onStore, run_lift, Prod.mk.injEq] at h
  rw [← h.1, ← h.2]

theorem decode_ok {α : Type} {dec : MsgDecoder α} {enc : MsgEncoder} {a b : α}
    (hroundTrips : RoundTrips [] enc dec a) (henc : payloadOf enc = .ok frame.payload)
    (h : (decode dec frame).run s = (.ok b, s')) : b = a ∧ s' = s := by
  obtain ⟨hdecoded, rfl⟩ := run_ofExcept_ok h
  rw [decodeFrame_of_roundTrips hroundTrips henc] at hdecoded
  exact ⟨(Except.ok.inj hdecoded).symm, rfl⟩

private theorem emit_singleton {type : FrMsgType} {reqId : UInt32} {payload : Bytes}
    (h : emit [] type reqId payload = [reply]) :
    reply.type = type.toByte ∧ reply.payload = payload := by
  unfold emit at h
  split at h
  · rw [List.nil_append] at h
    obtain rfl := List.singleton_inj.mp h
    exact ⟨rfl, rfl⟩
  · cases h

private theorem mem_emit {type : FrMsgType} {reqId : UInt32} {payload : Bytes}
    (h : reply ∈ emit [] type reqId payload) : emit [] type reqId payload = [reply] := by
  unfold emit at h ⊢
  split at h
  · rename_i hsome
    rw [if_pos hsome, List.nil_append]
    rw [List.nil_append] at h
    rw [List.mem_singleton.mp h]
  · cases h

private theorem replyError_ends {code : FrStatus} {what : Bytes}
    (h : (replyError env peer session frame code what).run s = (.ok (result, session'), s')) :
    (∀ f ∈ result.out, f.type = FrMsgType.error.toByte) ∧ result.hasMore = false := by
  unfold replyError at h
  dsimp only at h
  split at h
  · obtain ⟨_, s₁, -, h₁⟩ := run_bind_ok h
    obtain ⟨payload, s₂, -, h₂⟩ := run_bind_ok h₁
    cases h₂
    exact ⟨fun f hf => (emit_singleton (mem_emit hf)).1, rfl⟩
  · obtain ⟨payload, s₂, -, h₂⟩ := run_bind_ok h
    cases h₂
    exact ⟨fun f hf => (emit_singleton (mem_emit hf)).1, rfl⟩

theorem IsReply.not_error (h : IsReply reply) : reply.type ≠ FrMsgType.error.toByte := by
  intro herror
  rcases h with hok | hdata
  · exact absurd (herror.symm.trans hok) (by decide)
  · exact absurd (herror.symm.trans hdata) (by decide)

theorem handle_outcome (hbusiness : frame.isBusiness = true)
    (h : (handle sha env connId peer session frame).run s = (.ok (result, session'), s')) :
    (dispatchBusiness sha env connId session frame).run s = (.ok result, s') ∨
      (∀ f ∈ result.out, f.type = FrMsgType.error.toByte) ∧ result.hasMore = false := by
  cases hauth : session.authenticated with
  | false =>
    rw [handle_unauthenticated sha env connId peer s hauth hbusiness] at h
    cases h
    right
    refine ⟨?_, rfl⟩
    intro f hf
    rw [List.mem_singleton.mp hf]
    rfl
  | true =>
    rw [handle_business hbusiness hauth] at h
    rcases hrun : (dispatchBusiness sha env connId session frame).run s with
      ⟨(⟨code, what⟩ | what) | granted, s₁⟩
    · rw [hrun] at h
      exact .inr (replyError_ends h)
    · rw [hrun] at h
      cases h
    · rw [hrun] at h
      cases h
      exact .inl rfl

theorem handle_granted (hbusiness : frame.isBusiness = true)
    (h : (handle sha env connId peer session frame).run s = (.ok (result, session'), s'))
    (hout : reply ∈ result.out) (hreply : IsReply reply) :
    (dispatchBusiness sha env connId session frame).run s = (.ok result, s') := by
  rcases handle_outcome hbusiness h with hgranted | ⟨herror, -⟩
  · exact hgranted
  · exact absurd (herror reply hout) hreply.not_error

theorem replyOk_answer {enc : MsgEncoder} (h : (replyOk frame enc).run s = (.ok result, s'))
    (hout : result.out = [reply]) : payloadOf enc = .ok reply.payload ∧ s' = s := by
  obtain ⟨payload, s₁, hpayload, h₁⟩ := run_bind_ok h
  obtain ⟨henc, rfl⟩ := run_ofExcept_ok hpayload
  cases h₁
  rw [(emit_singleton hout).2]
  exact ⟨henc, rfl⟩

theorem replyOk_frame_fits {enc : MsgEncoder} (h : (replyOk frame enc).run s = (.ok result, s'))
    (hout : result.out = [reply]) : reply.payload.length ≤ frFrameMaxPayload := by
  obtain ⟨payload, s₁, hpayload, h₁⟩ := run_bind_ok h
  cases h₁
  have hencodable : ∀ f ∈ [reply], f.Encodable :=
    hout ▸ emit_encodable (List.forall_mem_nil _) .ok _ payload
  exact (hencodable reply (List.mem_singleton_self _)).payload_le

/-- A request on a connection and its reply: what is served before it, and what its handler is
given. -/
structure Round where
  others : List ClientEvent
  env : RequestEnv
  peer : Bytes
  request : FrFrame
  reply : FrFrame

/-- What happens up to the reply. -/
def Round.events (connId : Nat) (t : Round) : List ClientEvent :=
  t.others ++ [.request connId t.env t.peer t.request]

namespace Clients

/-- The server gives these replies on a connection. -/
def Gives (sha : Sha256) (connId : Nat) : Clients → List Round → Prop
  | _, [] => True
  | c, t :: rounds =>
    (∃ result, (c.run sha t.others).reply sha connId t.env t.peer t.request = some (.ok result) ∧
      result.out = [t.reply]) ∧
    Gives sha connId (c.run sha (t.events connId)) rounds

instance decidableGives (sha : Sha256) (connId : Nat) :
    (c : Clients) → (rounds : List Round) → Decidable (Gives sha connId c rounds)
  | _, [] => .isTrue trivial
  | c, t :: rounds =>
    have := decidableGives sha connId (c.run sha (t.events connId)) rounds
    have : Decidable (∃ result, (c.run sha t.others).reply sha connId t.env t.peer t.request =
        some (.ok result) ∧ result.out = [t.reply]) :=
      match hreply : (c.run sha t.others).reply sha connId t.env t.peer t.request with
      | some (.ok result) =>
        decidable_of_iff (result.out = [t.reply]) (by simp)
      | some (.error e) => .isFalse (by simp)
      | none => .isFalse (by simp)
    inferInstanceAs (Decidable (_ ∧ _))

theorem Gives.append {c : Clients} {first second : List Round}
    (h : Gives sha connId c (first ++ second)) :
    Gives sha connId (c.run sha (first.flatMap (·.events connId))) second := by
  induction first generalizing c with
  | nil => exact h
  | cons t first ih =>
    rw [List.flatMap_cons, run_append]
    exact ih h.2

theorem reply_handle {c : Clients} (h : c.reply sha connId env peer frame = some (.ok result)) :
    ∃ session session', (ForgeRelay.handle sha env connId peer session frame).run c.service =
      (.ok (result, session'), (c.next sha (.request connId env peer frame)).service) := by
  rw [reply] at h
  cases hsession : c.sessions connId with
  | none =>
    rw [hsession] at h
    cases h
  | some session =>
    rw [hsession, Option.map_some, Option.some.injEq] at h
    rcases hrun : (ForgeRelay.handle sha env connId peer session frame).run c.service with
      ⟨e | ⟨result', session'⟩, s'⟩
    · rw [hrun] at h
      cases h
    · rw [hrun] at h
      obtain rfl : result' = result := Except.ok.inj h
      refine ⟨session, session', ?_⟩
      simp only [next, hsession, hrun]

theorem Gives.handle {c : Clients} {t : Round} {rounds : List Round}
    (h : Gives sha connId c (t :: rounds)) :
    ∃ session result session', (ForgeRelay.handle sha t.env connId t.peer session t.request).run
      (c.run sha t.others).service =
        (.ok (result, session'), (c.run sha (t.events connId)).service) ∧
      result.out = [t.reply] := by
  obtain ⟨⟨result, hreply, hout⟩, -⟩ := h
  obtain ⟨session, session', hrun⟩ := reply_handle hreply
  refine ⟨session, result, session', ?_, hout⟩
  rw [Round.events, run_append]
  exact hrun

/-- What every operation of storage keeps, every run of events keeps. -/
theorem run_stored {B : Bound Store Error} {VL : UInt64 → Prop} {c : Clients}
    (hB : ∀ now, Allows now B (fun _ => True) VL) (events : List ClientEvent)
    (h : B.inv c.service.store) : B.inv (c.run sha events).service.store := by
  induction events generalizing c with
  | nil => exact h
  | cons e events ih =>
    apply ih
    have hcall (cfg : StorageConfig) (env : CallEnv) (call : Call) (s : Store) (hs : B.inv s) :
        B.inv ((call.program sha cfg env).run s).2 :=
      (((hB env.now).program sha cfg env rfl (fun _ _ _ => trivial) call).run hs).1.2
    apply next_calls ?_ ?_ h
    · intro _ _ _ _ _ call _
      exact hcall _ _ call
    · intro env _ s hs
      have hkept := hcall sampleConfig env .runMaintenance s hs
      rwa [Call.program, run_forget] at hkept

end Clients

theorem HadDialogue.rounds {dialogue : List (FrFrame × FrFrame)} {conn conn' : ClientConn}
    (h : HadDialogue dialogue conn conn') {rounds : List Round} {rest : List FrFrame}
    (hsent : conn'.sent = conn.sent ++ rounds.map (frameBytes ·.request))
    (hframes : conn.frames = rounds.map (·.reply) ++ rest)
    (hencodable : ∀ t ∈ rounds, t.request.Encodable) :
    dialogue = rounds.map fun t => (t.request, t.reply) := by
  have hbytes : dialogue.map (frameBytes ·.1) = rounds.map (frameBytes ·.request) :=
    List.append_cancel_left (h.sent.symm.trans hsent)
  have hreplies := h.frames.symm.trans hframes
  have hknown := h.encodable
  generalize conn'.frames = rest' at hreplies
  clear h hsent hframes
  induction dialogue generalizing rounds with
  | nil =>
    cases rounds with
    | nil => rfl
    | cons t rounds => cases hbytes
  | cons exchange dialogue ih =>
    cases rounds with
    | nil => cases hbytes
    | cons t rounds =>
      obtain ⟨hfirst, hothers⟩ := List.forall_mem_cons.mp hknown
      obtain ⟨hfirst', hothers'⟩ := List.forall_mem_cons.mp hencodable
      rw [List.map_cons, List.map_cons, List.cons.injEq] at hbytes
      rw [List.map_cons, List.map_cons, List.cons_append, List.cons_append, List.cons.injEq]
        at hreplies
      have hrequest : exchange.1 = t.request := by
        apply (frameBytes_append_inj hfirst hfirst' (x := []) (y := []) ?_).1
        rw [List.append_nil, List.append_nil]
        exact hbytes.1
      rw [List.map_cons, ih hothers' hbytes.2 hothers hreplies.2, ← hrequest, ← hreplies.1]

end ForgeRelay
