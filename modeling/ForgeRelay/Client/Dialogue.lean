import ForgeRelay.Client.Download

/-!
# What a client sends and what it is told

A program of the client that succeeds has had a dialogue: its requests, each with the frame that
came back.
-/

namespace ForgeRelay

/-- The client sends these requests, takes these replies, and goes on from there. -/
structure HadDialogue (dialogue : List (FrFrame × FrFrame)) (conn conn' : ClientConn) : Prop where
  sent : conn'.sent = conn.sent ++ dialogue.map (frameBytes ·.1)
  frames : conn.frames = dialogue.map (·.2) ++ conn'.frames
  encodable : ∀ exchange ∈ dialogue, exchange.1.Encodable

theorem HadDialogue.refl (conn : ClientConn) : HadDialogue [] conn conn :=
  ⟨(List.append_nil _).symm, rfl, List.forall_mem_nil _⟩

theorem HadDialogue.trans {first second : List (FrFrame × FrFrame)} {a b c : ClientConn}
    (h : HadDialogue first a b) (h' : HadDialogue second b c) :
    HadDialogue (first ++ second) a c := by
  constructor
  · rw [h'.sent, h.sent, List.map_append, List.append_assoc]
  · rw [h.frames, h'.frames, List.map_append, List.append_assoc]
  · exact List.forall_mem_append.mpr ⟨h.encodable, h'.encodable⟩

/-- A program that succeeds has had such a dialogue. -/
def Talks {α : Type} (m : ClientM α) (P : List (FrFrame × FrFrame) → α → Prop) : Prop :=
  ∀ (conn conn' : ClientConn) (a : α), m.run conn = .ok (a, conn') →
    ∃ dialogue, HadDialogue dialogue conn conn' ∧ P dialogue a

namespace Talks

variable {α β : Type} {m : ClientM α} {P P' : List (FrFrame × FrFrame) → α → Prop}

theorem mono (hm : Talks m P) (h : ∀ dialogue a, P dialogue a → P' dialogue a) : Talks m P' := by
  intro conn conn' a hrun
  obtain ⟨dialogue, hhad, hP⟩ := hm conn conn' a hrun
  exact ⟨dialogue, hhad, h dialogue a hP⟩

theorem pure (a : α) : Talks (Pure.pure a) fun dialogue a' => dialogue = [] ∧ a' = a := by
  intro conn conn' a' hrun
  cases hrun
  exact ⟨[], .refl conn, rfl, rfl⟩

theorem throw (e : CommandFailure) : Talks (MonadExcept.throw e : ClientM α) fun _ _ => False := by
  intro conn conn' a hrun
  cases hrun

theorem bind {next : α → ClientM β} {Q : α → List (FrFrame × FrFrame) → β → Prop}
    (hm : Talks m P) (hnext : ∀ a, Talks (next a) (Q a)) :
    Talks (m >>= next) fun dialogue b =>
      ∃ first a second, dialogue = first ++ second ∧ P first a ∧ Q a second b := by
  intro conn conn' b hrun
  rw [StateT.run_bind] at hrun
  cases hfirst : m.run conn with
  | error e =>
    rw [hfirst] at hrun
    cases hrun
  | ok r =>
    obtain ⟨a, mid⟩ := r
    rw [hfirst] at hrun
    obtain ⟨first, hhad, hP⟩ := hm conn mid a hfirst
    obtain ⟨second, hhad', hQ⟩ := hnext a mid conn' b hrun
    exact ⟨first ++ second, hhad.trans hhad', first, a, second, rfl, hP, hQ⟩

end Talks

/-- A program that succeeds has had some dialogue. -/
abbrev Converses {α : Type} (m : ClientM α) : Prop := Talks m fun _ _ => True

theorem Talks.converses {α : Type} {m : ClientM α} {P : List (FrFrame × FrFrame) → α → Prop}
    (hm : Talks m P) : Converses m := hm.mono fun _ _ _ => trivial

theorem Converses.seq {α β : Type} {m : ClientM α} {next : α → ClientM β} (hm : Converses m)
    (hnext : ∀ a, Converses (next a)) : Converses (m >>= next) :=
  (hm.bind hnext).converses

/-- One request: its type and its payload, and the reply. -/
def Exchange (type : FrMsgType) (payload : Bytes) (dialogue : List (FrFrame × FrFrame))
    (reply : FrFrame) : Prop :=
  ∃ request, dialogue = [(request, reply)] ∧ request.type = type.toByte ∧
    request.payload = payload ∧ IsReply reply

private theorem sendRequest_ok {type : FrMsgType} {payload : Bytes} {conn conn' : ClientConn}
    (h : (Client.sendRequest type payload).run conn = .ok ((), conn')) :
    ∃ request, request.type = type.toByte ∧ request.payload = payload ∧ request.Encodable ∧
      conn'.sent = conn.sent ++ [frameBytes request] ∧ conn'.frames = conn.frames := by
  let f : FrFrame := ⟨type.toByte, 0, (conn.clock conn.sent.length &&& 0x7fffffff) ||| 1, payload⟩
  rcases hencode : frFrameEncode (fun _ => true) frBufInit f.type f.flags f.reqId f.payload with
    ⟨st, out⟩
  change Client.sendRequest type payload conn = _ at h
  unfold Client.sendRequest at h
  dsimp only at h
  rw [hencode] at h
  cases st with
  | ok =>
    cases h
    have hencodable : f.Encodable := frFrameEncode_encodable (congrArg Prod.fst hencode)
    obtain ⟨cap, hok⟩ := frFrameEncode_ok frBufInit f hencodable (by simp [frBufInit])
    rw [hencode] at hok
    cases hok
    exact ⟨f, rfl, rfl, hencodable, rfl, rfl⟩
  | _ => cases h

theorem talks_message (enc : MsgEncoder) : Talks (Client.message enc) fun dialogue payload =>
    dialogue = [] ∧ payloadOf enc = .ok payload := by
  unfold Client.message
  cases payloadOf enc with
  | ok payload =>
    apply (Talks.pure payload).mono
    intro dialogue payload' h
    exact ⟨h.1, congrArg Except.ok h.2.symm⟩
  | error e => exact (Talks.throw _).mono fun _ _ => False.elim

theorem talks_request (type : FrMsgType) (payload : Bytes) :
    Talks (Client.request type payload) (Exchange type payload) := by
  intro conn conn' reply hrun
  unfold Client.request at hrun
  rw [StateT.run_bind] at hrun
  cases hsend : (Client.sendRequest type payload).run conn with
  | error e =>
    rw [hsend] at hrun
    cases hrun
  | ok r =>
    obtain ⟨u, mid⟩ := r
    rw [hsend] at hrun
    obtain ⟨request, htype, hpayload, hencodable, hsent, hframes⟩ := sendRequest_ok hsend
    obtain ⟨_, hsplit, hreply, hIs, -⟩ := (takes_request type payload conn reply conn'.frames).mp
      ⟨conn', by
        unfold Client.request
        rw [StateT.run_bind, hsend]
        exact hrun, rfl⟩
    obtain ⟨clock, sent, pending, lost⟩ := mid
    cases pending with
    | nil => cases hrun
    | cons frame pending =>
      have hsame : conn'.sent = sent := by
        change (((if frame.type = FrMsgType.error.toByte then _ else _ : ClientM FrFrame)).run
          ⟨clock, sent, pending, lost⟩) = _ at hrun
        split at hrun
        · cases hrun
        · split at hrun
          · cases hrun
          · cases hrun
            rfl
      refine ⟨[(request, reply)], ⟨?_, ?_, ?_⟩, request, rfl, htype, hpayload, hIs⟩
      · rw [hsame]
        exact hsent
      · rw [hsplit, hreply]
        rfl
      · exact List.forall_mem_singleton.mpr hencodable

namespace Client

/-- A request and the answer in the reply. -/
def ask {α : Type} (type : FrMsgType) (enc : MsgEncoder) (dec : MsgDecoder α) : ClientM α := do
  let payload ← message enc
  let frame ← request type payload
  match decodeFrame dec frame with
  | .ok a => return a
  | .error e => throw (.client e)

end Client

/-- A request of this type and the answer to it. -/
def Answered {α : Type} (type : FrMsgType) (enc : MsgEncoder) (dec : MsgDecoder α)
    (dialogue : List (FrFrame × FrFrame)) (a : α) : Prop :=
  ∃ payload reply, payloadOf enc = .ok payload ∧ Exchange type payload dialogue reply ∧
    decodeFrame dec reply = .ok a

theorem talks_ask {α : Type} (type : FrMsgType) (enc : MsgEncoder) (dec : MsgDecoder α) :
    Talks (Client.ask type enc dec) (Answered type enc dec) := by
  have hanswer (frame : FrFrame) : Talks (match decodeFrame dec frame with
      | .ok a => pure a
      | .error e => throw (.client e) : ClientM α) fun dialogue a =>
        dialogue = [] ∧ decodeFrame dec frame = .ok a := by
    cases decodeFrame dec frame with
    | ok a =>
      apply (Talks.pure a).mono
      intro dialogue a' h
      exact ⟨h.1, congrArg Except.ok h.2.symm⟩
    | error e => exact (Talks.throw _).mono fun _ _ => False.elim
  apply ((talks_message enc).bind fun payload => (talks_request type payload).bind hanswer).mono
  rintro _ a ⟨_, payload, _, rfl, ⟨rfl, hpayload⟩, exchange, reply, _, rfl, hexchange, rfl, ha⟩
  refine ⟨payload, reply, hpayload, ?_, ha⟩
  rw [List.nil_append, List.append_nil]
  exact hexchange

private theorem showArtifact_eq (ref : ArtifactRef) : Client.showArtifact ref =
    (do
      let ok ← Client.ask .showArtifact (putRef ref) decodeShowArtifactOk
      return ok.info) := by
  unfold Client.showArtifact Client.ask
  simp only [bind_assoc]
  congr 1
  funext payload
  congr 1
  funext frame
  cases decodeFrame decodeShowArtifactOk frame <;> rfl

theorem talks_showArtifact (ref : ArtifactRef) : Talks (Client.showArtifact ref)
    fun dialogue info =>
      Answered .showArtifact (putRef ref) decodeShowArtifactOk dialogue ⟨info⟩ := by
  rw [showArtifact_eq]
  have hasked := talks_ask .showArtifact (putRef ref) decodeShowArtifactOk
  apply (hasked.bind fun ok => .pure ok.info).mono
  rintro _ _ ⟨dialogue, ok, _, rfl, hanswered, rfl, rfl⟩
  rw [List.append_nil]
  exact hanswered

theorem connect_converses (token : Bytes) : Converses (Client.connect token) := by
  unfold Client.connect
  apply Converses.seq (talks_message _).converses
  intro hello
  apply Converses.seq (talks_request _ _).converses
  intro _
  split
  · exact (Talks.pure ()).converses
  · apply Converses.seq (talks_message _).converses
    intro auth
    exact .seq (talks_request _ _).converses fun _ => (Talks.pure ()).converses

end ForgeRelay
