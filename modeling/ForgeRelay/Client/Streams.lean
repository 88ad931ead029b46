import ForgeRelay.Client.Rounds
import ForgeRelay.Transport.Chain
import ForgeRelay.Transport.InFlight

/-!
# Downloads beside others

A download goes on slice by slice, with the requests of others in between. As long as nobody deletes
its artifact or closes its connection, its frames are the rest of the artifact.
-/

namespace ForgeRelay

open Program Prog

variable {sha : Sha256} {contents leaked : Set Bytes} {env : RequestEnv} {connId : Nat}
  {peer key : Bytes} {session : ClientSession} {frame : FrFrame} {s s' : Service}

/-- The event neither continues this download nor closes its connection. -/
def ClientEvent.Leaves (connId : Nat) (key : Bytes) : ClientEvent → Prop
  | .resume key' => key' ≠ key
  | .disconnect connId' => connId' ≠ connId
  | _ => True

instance (connId : Nat) (key : Bytes) : DecidablePred (ClientEvent.Leaves connId key)
  | .connect _ => inferInstanceAs (Decidable True)
  | .request _ _ _ _ => inferInstanceAs (Decidable True)
  | .resume _ => inferInstanceAs (Decidable (_ ≠ _))
  | .maintenance _ => inferInstanceAs (Decidable True)
  | .disconnect _ => inferInstanceAs (Decidable (_ ≠ _))

/-- Every download has a key that has been used, and the numbers of the downloads do not wrap around
within so many more. -/
structure Service.Numbered (s : Service) (more : Nat) : Prop where
  kept : KeptDownloads s
  room : s.getSeq.toNat + more < 2^64

theorem Service.Numbered.mono {n m : Nat} (h : s.Numbered n) (hle : m ≤ n) : s.Numbered m :=
  ⟨h.kept, lt_of_le_of_lt (Nat.add_le_add_left hle _) h.room⟩

theorem Service.Numbered.same {n : Nat} (h : s.Numbered n) (hsame : SameDownloads s s') :
    s'.Numbered n := by
  refine ⟨h.kept.same hsame, ?_⟩
  rw [hsame.getSeq]
  exact h.room

section Sliced

variable {gets : Bytes → Option GetState} {state : GetState} {r : Except Error HandleResult}

theorem Sliced.get_cases (h : Sliced key s.gets state r gets) {key' : Bytes} {state' : GetState}
    (hget : gets key' = some state') :
    key' = key ∧ state'.reqId = state.reqId ∨ key' ≠ key ∧ s.gets key' = some state' := by
  by_cases hkey : key' = key
  · subst hkey
    left
    cases h <;> rw [Function.update_self] at hget <;> cases hget <;> exact ⟨rfl, rfl⟩
  · right
    refine ⟨hkey, ?_⟩
    cases h <;> rwa [Function.update_of_ne hkey] at hget

private theorem Sliced.get_of_ne (h : Sliced key s.gets state r gets) {key' : Bytes}
    (hne : key' ≠ key) :
    gets key' = s.gets key' := by
  cases h <;> exact Function.update_of_ne hne _ _

private theorem KeptDownloads.sliced (h : KeptDownloads s)
    (hslice : Sliced key s.gets state r s'.gets)
    (hused : s'.Used key) (hmono : s.getSeq.toNat ≤ s'.getSeq.toNat) (hid : state.reqId ≠ 0) :
    KeptDownloads s' := by
  constructor
  · intro key' state' hget
    rcases hslice.get_cases hget with ⟨rfl, -⟩ | ⟨-, hget⟩
    · exact hused
    · obtain ⟨connId, n, hlt, hkey⟩ := h.used key' state' hget
      exact ⟨connId, n, hlt.trans_le hmono, hkey⟩
  · intro key' state' hget
    rcases hslice.get_cases hget with ⟨-, hsame⟩ | ⟨-, hget⟩
    · rwa [hsame]
    · exact h.reqId key' state' hget

end Sliced

/-- What a step does to the downloads, one of which may start: those that are spared keep their
states. -/
structure Service.Moves (s s' : Service) (n : Nat) (spared : Bytes → Prop) : Prop where
  numbered : s'.Numbered n
  used : ∀ key, s.Used key → s'.Used key
  get : ∀ key, s.Used key → spared key → s'.gets key = s.gets key

section Moves

variable {n : Nat} {spared : Bytes → Prop}

theorem Service.Numbered.moves (h : s.Numbered (n + 1)) (hsame : SameDownloads s s') :
    s.Moves s' n spared := by
  constructor
  · exact (h.mono (Nat.le_succ n)).same hsame
  · rintro key ⟨connId, m, hlt, hkey⟩
    exact ⟨connId, m, hsame.getSeq ▸ hlt, hkey⟩
  · intro key _ _
    exact congrFun hsame.gets key

private theorem startGet_moves (h : s.Numbered (n + 1)) (req : GetArtifactReq) :
    s.Moves ((startGet connId frame req).run s).2 n spared := by
  obtain ⟨r, gets, hslice, hrun⟩ := @startGet_sliced connId frame s req (h.kept.fresh connId)
  have hroom := h.room
  have hsucc : (s.getSeq + 1).toNat = s.getSeq.toNat + 1 := by
    rw [UInt64.toNat_add, UInt64.toNat_one]
    exact Nat.mod_eq_of_lt (by omega)
  rw [hrun]
  constructor
  · constructor
    · change KeptDownloads { s with getSeq := s.getSeq + 1, gets := gets }
      apply h.kept.sliced hslice
      · exact ⟨connId, s.getSeq, by simp [hsucc], rfl⟩
      · simp [hsucc]
      · exact outReqId_ne_zero frame
    · simp only [hsucc]
      omega
  · rintro key ⟨connId', m, hlt, hkey⟩
    exact ⟨connId', m, by simp only [hsucc]; omega, hkey⟩
  · intro key hused _
    apply hslice.get_of_ne
    rintro rfl
    exact s.not_used connId hused

private theorem replyError_sameDownloads {code : FrStatus} {what : Bytes} :
    KeepsDownloads (replyError env peer session frame code what) := by
  unfold replyError
  dsimp only
  split
  · exact .bind .noteAuthFailure fun _ => .bind (.ofExcept _) fun _ => .pure _
  · exact .bind (.ofExcept _) fun _ => .pure _

theorem Service.Moves.same {s'' : Service} (h : s.Moves s' n spared)
    (hsame : SameDownloads s' s'') : s.Moves s'' n spared := by
  constructor
  · exact h.numbered.same hsame
  · intro key hused
    obtain ⟨connId, m, hlt, hkey⟩ := h.used key hused
    exact ⟨connId, m, hsame.getSeq ▸ hlt, hkey⟩
  · intro key hused hspared
    rw [hsame.gets]
    exact h.get key hused hspared

private theorem handle_moves (h : s.Numbered (n + 1)) :
    s.Moves ((handle sha env connId peer session frame).run s).2 n spared := by
  obtain ⟨session', r, s₁, hreached, hrun⟩ :=
    @handle_reached sha env connId peer session frame s
  have hmoves : s.Moves s₁ n spared := by
    cases hreached with
    | replied hsame => exact h.moves hsame
    | failed hsame => exact h.moves hsame
    | @download req r s₁ htype hreq hstart =>
      have hmoves : s.Moves ((startGet connId frame req).run s).2 n spared := startGet_moves h req
      rwa [hstart] at hmoves
  rw [hrun]
  cases r with
  | ok result => exact hmoves
  | error e =>
    cases e with
    | fr code what => exact hmoves.same (replyError_sameDownloads s₁)
    | std what => exact hmoves

private theorem handleGetContinue_moves (h : s.Numbered (n + 1)) :
    s.Moves ((handleGetContinue key).run s).2 n (· ≠ key) := by
  cases hget : s.gets key with
  | none =>
    rw [handleGetContinue_none hget]
    exact h.moves (.refl s)
  | some state =>
    obtain ⟨r, gets, hslice, hrun⟩ := handleGetContinue_sliced hget (h.kept.reqId _ _ hget)
    rw [hrun]
    constructor
    · constructor
      · change KeptDownloads { s with gets := gets }
        apply h.kept.sliced hslice
        · exact h.kept.used _ _ hget
        · exact Nat.le_refl _
        · exact h.kept.reqId _ _ hget
      · exact (h.mono (Nat.le_succ n)).room
    · exact fun _ => id
    · intro key' _ hne
      exact hslice.get_of_ne hne

private theorem onConnectionClosed_moves (h : s.Numbered (n + 1)) :
    s.Moves (onConnectionClosed connId s) n fun key => ∃ c m, c ≠ connId ∧ key = getKey c m := by
  have hget {key : Bytes} {state : GetState}
      (hget : (onConnectionClosed connId s).gets key = some state) : s.gets key = some state := by
    simp only [onConnectionClosed] at hget
    split at hget
    · cases hget
    · exact hget
  constructor
  · constructor
    · constructor
      · intro key state hstate
        exact h.kept.used key state (hget hstate)
      · intro key state hstate
        exact h.kept.reqId key state (hget hstate)
    · exact (h.mono (Nat.le_succ n)).room
  · exact fun _ => id
  · rintro _ - ⟨c, m, hne, rfl⟩
    simp only [onConnectionClosed]
    rw [if_neg fun hprefix => hne (isPrefixOf_getKey.mp hprefix)]

end Moves

namespace Clients

variable {c : Clients} {n : Nat}

private theorem next_moves {e : ClientEvent} (h : c.service.Numbered (n + 1)) :
    c.service.Moves (c.next sha e).service n
      fun key => ∃ connId m, key = getKey connId m ∧ e.Leaves connId key := by
  cases e with
  | connect connId =>
    have hsame : (c.next sha (.connect connId)).service = c.service := by
      simp only [next]
      split <;> rfl
    rw [hsame]
    exact h.moves (.refl _)
  | request connId env peer frame =>
    cases hsession : c.sessions connId with
    | none =>
      simp only [next, hsession]
      exact h.moves (.refl _)
    | some session =>
      have hmoves : c.service.Moves ((handle sha env connId peer session frame).run c.service).2 n
          fun key => ∃ connId' m, key = getKey connId' m ∧
            ClientEvent.Leaves connId' key (.request connId env peer frame) := handle_moves h
      simp only [next, hsession]
      split <;> rename_i hrun <;> rw [hrun] at hmoves <;> exact hmoves
  | resume key =>
    have hmoves : c.service.Moves ((handleGetContinue key).run c.service).2 n (· ≠ key) :=
      handleGetContinue_moves h
    refine ⟨hmoves.numbered, hmoves.used, ?_⟩
    intro key' hused hother
    obtain ⟨_, _, _, hleaves⟩ := hother
    exact hmoves.get key' hused (Ne.symm hleaves)
  | maintenance env => exact h.moves ⟨rfl, rfl⟩
  | disconnect connId =>
    have hmoves := @onConnectionClosed_moves connId c.service n h
    refine ⟨hmoves.numbered, hmoves.used, ?_⟩
    intro key hused hother
    obtain ⟨connId', m, hkey, hleaves⟩ := hother
    exact hmoves.get key hused ⟨connId', m, Ne.symm hleaves, hkey⟩

theorem run_moves {events : List ClientEvent} (h : c.service.Numbered (events.length + n)) :
    c.service.Moves (c.run sha events).service n fun key =>
      ∃ connId m, key = getKey connId m ∧ ∀ e ∈ events, e.Leaves connId key := by
  induction events generalizing c with
  | nil =>
    rw [List.length_nil, Nat.zero_add] at h
    exact ⟨h, fun _ => id, fun _ _ _ => rfl⟩
  | cons e events ih =>
    rw [List.length_cons, Nat.add_right_comm] at h
    have hfirst := @next_moves sha c (events.length + n) e h
    have hrest := ih hfirst.numbered
    refine ⟨hrest.numbered, fun key hused => hrest.used key (hfirst.used key hused), ?_⟩
    rintro key hused ⟨connId, m, hkey, hleaves⟩
    obtain ⟨hleaves₁, hleaves₂⟩ := List.forall_mem_cons.mp hleaves
    change ((c.next sha e).run sha events).service.gets key = _
    rw [hrest.get key (hfirst.used key hused) ⟨connId, m, hkey, hleaves₂⟩,
      hfirst.get key hused ⟨connId, m, hkey, hleaves₁⟩]

end Clients

/-- One more slice of a download: what is served before it, and its frames. -/
structure Slice where
  others : List ClientEvent
  frames : List FrFrame

def Slice.events (key : Bytes) (t : Slice) : List ClientEvent := t.others ++ [.resume key]

/-- A GET_ARTIFACT on a connection: what is served before it, what its handler is given, its first
frames, the key of the download, and the slices that follow. -/
structure Fetch where
  others : List ClientEvent
  env : RequestEnv
  peer : Bytes
  request : FrFrame
  frames : List FrFrame
  key : Bytes
  slices : List Slice

namespace Fetch

/-- What happens up to the first frames. -/
def opening (connId : Nat) (t : Fetch) : List ClientEvent :=
  t.others ++ [.request connId t.env t.peer t.request]

/-- What happens up to the last frame. -/
def events (connId : Nat) (t : Fetch) : List ClientEvent :=
  t.opening connId ++ t.slices.flatMap (·.events t.key)

/-- All frames of the download. -/
def allFrames (t : Fetch) : List FrFrame := t.frames ++ t.slices.flatMap (·.frames)

end Fetch

namespace Clients

/-- The server sends these slices, one continuation after the other, until there is none. -/
def Continues (sha : Sha256) (task : Task) (key : Bytes) : Bool → Clients → List Slice → Prop
  | more, _, [] => more = false
  | more, c, t :: slices =>
    more = true ∧ (∀ e ∈ t.others, e.Leaves task.connId key) ∧
    ∃ result, workerResult (task.continuation key)
        ((handleGetContinue key).run (c.run sha t.others).service).1 = .ok result ∧
      result.out = t.frames ∧
      Continues sha task key result.hasMore (c.run sha (t.events key)) slices

/-- The server sends this download. -/
def Fetches (sha : Sha256) (connId : Nat) (c : Clients) (t : Fetch) : Prop :=
  ∃ result, (c.run sha t.others).reply sha connId t.env t.peer t.request = some (.ok result) ∧
    result.out = t.frames ∧ result.continuationKey = t.key ∧
    (c.run sha (t.opening connId)).Continues sha (.request connId t.peer t.request) t.key
      result.hasMore t.slices

end Clients

theorem StoreInv.forget {store : Store} (h : StoreInv sha contents leaked store) :
    StoreInv sha contents Set.univ store :=
  { h with accounted := fun _ _ _ hnone => absurd trivial hnone }

variable {a : ArtifactRow} {chunks : List Bytes} {state : GetState}

/-- As long as nobody deletes the artifact. -/
theorem Available.run {c : Clients} {events : List ClientEvent}
    (h : Available sha contents a chunks c.service.store) (hbring : Bring contents events)
    (hstays : ∀ e ∈ events, ¬ e.Deletes a) :
    Available sha contents a chunks (c.run sha events).service.store := by
  have hkept := Clients.run_kept hbring h.inv
  have hrow : a ∈ (c.run sha events).service.store.db.artifact := by
    apply hkept.evolves.keeps a h.row
    rintro ⟨e, he, hdeletes⟩
    exact hstays e he hdeletes
  have hmanifest := (hkept.evolves.old a hrow (h.inv.rows.artifactIds a h.row)).2
  exact ⟨hkept.inv, hrow, hmanifest ▸ h.depicts⟩

/-- The frames of a download. -/
def streamFrames (reqId : UInt32) (pieces : List Bytes) (sent : UInt64) : List FrFrame :=
  pieces.map (dataFrame reqId) ++ [lastFrame reqId sent]

private theorem streamFrames_append (reqId : UInt32) (pieces rest : List Bytes) (sent : UInt64) :
    streamFrames reqId (pieces ++ rest) sent =
      pieces.map (dataFrame reqId) ++ streamFrames reqId rest sent := by
  simp [streamFrames]

namespace Clients

variable {c : Clients} {n : Nat} {task : Task}

private theorem run_resume (sha : Sha256) (c : Clients) (key : Bytes) (t : Slice) :
    (c.run sha (t.events key)).service =
      ((handleGetContinue key).run (c.run sha t.others).service).2 := by
  rw [Slice.events, run_append]
  rfl

private theorem run_leaves {events : List ClientEvent} {m : UInt64} (hkey : key = getKey connId m)
    (hnumbered : c.service.Numbered (events.length + n))
    (hleaves : ∀ e ∈ events, e.Leaves connId key) (hget : c.service.gets key = some state) :
    (c.run sha events).service.Numbered n ∧ (c.run sha events).service.gets key = some state := by
  have hmoves := @run_moves sha c n events hnumbered
  refine ⟨hmoves.numbered, ?_⟩
  rw [hmoves.get key (hnumbered.kept.used key state hget) ⟨connId, m, hkey, hleaves⟩]
  exact hget

theorem Continues.nil {slices : List Slice} (h : c.Continues sha task key false slices) :
    slices = [] := by
  cases slices with
  | nil => rfl
  | cons t slices => cases h.1

theorem Continues.streams {slices : List Slice} {m : UInt64} (hsha : sha.NoCollision contents)
    (hkey : key = getKey task.connId m) (h : c.Continues sha task key true slices)
    (havail : Available sha contents a chunks c.service.store)
    (hnumbered : c.service.Numbered ((slices.flatMap (·.events key)).length + n))
    (hbring : Bring contents (slices.flatMap (·.events key)))
    (hstays : ∀ e ∈ slices.flatMap (·.events key), ¬ e.Deletes a)
    (hget : c.service.gets key = some state) (hreads : state.Reads a) :
    ∃ pieces sent,
      Streams state chunks.flatten key pieces sent
        (c.run sha (slices.flatMap (·.events key))).service ∧
      slices.flatMap (·.frames) = streamFrames state.reqId pieces sent := by
  induction slices generalizing c state with
  | nil => exact absurd h (by simp [Continues])
  | cons t slices ih =>
    obtain ⟨-, hleaves, result, hresult, hout, hrest⟩ := h
    have hsize := havail.depicts.size
    rw [List.flatMap_cons] at hbring hstays hnumbered ⊢
    obtain ⟨hbring₁, hbring₂⟩ := List.forall_mem_append.mp hbring
    obtain ⟨hstays₁, hstays₂⟩ := List.forall_mem_append.mp hstays
    -- what others do before the slice
    obtain ⟨hbringOthers, -⟩ := List.forall_mem_append.mp hbring₁
    obtain ⟨hstaysOthers, -⟩ := List.forall_mem_append.mp hstays₁
    have havail₁ := havail.run hbringOthers hstaysOthers
    have hbudget : c.service.Numbered
        (t.others.length + ((slices.flatMap (·.events key)).length + n + 1)) := by
      apply hnumbered.mono
      simp only [Slice.events, List.length_append, List.length_singleton]
      omega
    obtain ⟨hnumbered₁, hget₁⟩ : (c.run sha t.others).service.Numbered _ ∧ _ :=
      run_leaves hkey hbudget hleaves hget
    -- the slice
    obtain ⟨pieces, sent, hsends, hrun⟩ := handleGetContinue_run hsha havail₁ hget₁ hreads
    have hservice := run_resume sha c key t
    rw [run_append]
    by_cases hend : (state.advance sent).remaining = 0 ∨ sent = 0
    · rw [if_pos hend] at hrun
      rw [hrun] at hresult hservice
      obtain rfl := Except.ok.inj hresult
      obtain rfl := hrest.nil
      refine ⟨pieces, _, hsends.streams_last hreads hsize ?_ hend, ?_⟩
      · rw [List.flatMap_nil, run, List.foldl_nil, hservice]
        exact Function.update_self _ _ _
      · rw [List.flatMap_cons, List.flatMap_nil, List.append_nil, ← hout]
        rfl
    · rw [if_neg hend] at hrun
      have hmoves : Service.Moves _ _ _ (· ≠ key) := handleGetContinue_moves hnumbered₁
      have hnumbered₂ := hmoves.numbered
      rw [← hservice] at hnumbered₂
      rw [hrun] at hresult hservice
      obtain rfl := Except.ok.inj hresult
      have havail₂ := havail.run hbring₁ hstays₁
      have hget₂ : (c.run sha (t.events key)).service.gets key = some (state.advance sent) := by
        rw [hservice]
        exact Function.update_self _ _ _
      obtain ⟨rest, total, hstreams, hframes⟩ := ih hrest havail₂ hnumbered₂ hbring₂ hstays₂ hget₂
        (hsends.reads hreads hsize)
      refine ⟨pieces ++ rest, total, hsends.streams hreads hsize hstreams, ?_⟩
      rw [List.flatMap_cons, hframes, streamFrames_append, ← hout]
      rfl

theorem Fetches.start {t : Fetch} {req : GetArtifactReq} (h : c.Fetches sha connId t)
    (htype : t.request.type = FrMsgType.getArtifact.toByte)
    (hpayload : payloadOf (encodeGetArtifactReq req) = .ok t.request.payload)
    (hreply : ∃ f rest, t.allFrames = f :: rest ∧ IsReply f) :
    ∃ result, (startGet connId t.request req).run (c.run sha t.others).service =
        (.ok result, (c.run sha (t.opening connId)).service) ∧
      result.out = t.frames ∧ result.continuationKey = t.key ∧
      (c.run sha (t.opening connId)).Continues sha (.request connId t.peer t.request) t.key
        result.hasMore t.slices := by
  obtain ⟨result, hanswer, hout, hkey, hrest⟩ := h
  refine ⟨result, ?_, hout, hkey, hrest⟩
  obtain ⟨session, session', hhandle⟩ := reply_handle hanswer
  have hbusiness : t.request.isBusiness = true := by
    rw [FrFrame.isBusiness, htype, FrMsgType.ofByte_toByte]
  rcases handle_outcome hbusiness hhandle with hgranted | ⟨herror, hmore⟩
  · rw [dispatchBusiness, htype, FrMsgType.ofByte_toByte] at hgranted
    obtain ⟨_, s₁, hrole, hgranted₁⟩ := run_bind_ok hgranted
    obtain ⟨-, rfl⟩ := run_ofExcept_ok hrole
    obtain ⟨req', s₂, hdecode, hstart⟩ := run_bind_ok hgranted₁
    obtain ⟨rfl, rfl⟩ := decode_ok (getArtifactReq_roundTrips req) hpayload hdecode
    rw [Fetch.opening, run_append]
    exact hstart
  · -- an ERROR frame, and nothing behind it
    obtain ⟨f, rest, hframes, hfreply⟩ := hreply
    rw [hmore] at hrest
    rw [Fetch.allFrames, hrest.nil, List.flatMap_nil, List.append_nil, ← hout] at hframes
    have hf : f ∈ result.out := by
      rw [hframes]
      exact List.mem_cons_self
    exact absurd (herror f hf) hfreply.not_error

theorem Fetches.streams {t : Fetch} {req : GetArtifactReq} (hsha : sha.NoCollision contents)
    (h : c.Fetches sha connId t) (htype : t.request.type = FrMsgType.getArtifact.toByte)
    (hpayload : payloadOf (encodeGetArtifactReq req) = .ok t.request.payload)
    (hreply : ∃ f rest, t.allFrames = f :: rest ∧ IsReply f)
    (havail : Available sha contents a chunks c.service.store)
    (hnumbered : c.service.Numbered (t.events connId).length)
    (hbring : Bring contents (t.events connId)) (hstays : ∀ e ∈ t.events connId, ¬ e.Deletes a)
    (href : (req.ref.ns, req.ref.name, req.ref.version) = a.ref) (hoffset : req.offset ≤ a.size) :
    ∃ pieces sent, t.allFrames = streamFrames (outReqId t.request) pieces sent ∧
      pieces.flatten = (chunks.flatten.drop req.offset.toNat).take req.length.toNat := by
  obtain ⟨result, hstart, hout, hkey, hrest⟩ := h.start htype hpayload hreply
  have hsize := havail.depicts.size
  have hreads : (newGet t.request req).Reads a :=
    ⟨href, hoffset, UInt64.zero_le, outReqId_ne_zero _⟩
  obtain ⟨hbringOpening, hbringSlices⟩ := List.forall_mem_append.mp hbring
  obtain ⟨hstaysOpening, hstaysSlices⟩ := List.forall_mem_append.mp hstays
  -- what others do before the request
  obtain ⟨hbringOthers, -⟩ := List.forall_mem_append.mp hbringOpening
  obtain ⟨hstaysOthers, -⟩ := List.forall_mem_append.mp hstaysOpening
  have havail₁ := havail.run hbringOthers hstaysOthers
  have hbudget : c.service.Numbered
      (t.others.length + ((t.slices.flatMap (·.events t.key)).length + 0 + 1)) := by
    apply hnumbered.mono
    simp only [Fetch.events, Fetch.opening, List.length_append, List.length_singleton]
    omega
  have hnumbered₁ := (@run_moves sha c _ t.others hbudget).numbered
  have hmoves : (c.run sha t.others).service.Moves
      ((startGet connId t.request req).run (c.run sha t.others).service).2
        ((t.slices.flatMap (·.events t.key)).length + 0) fun _ => True :=
    startGet_moves hnumbered₁ req
  obtain ⟨pieces, sent, hsends, hrun⟩ := startGet_run hsha rfl (hnumbered₁.kept.fresh connId)
    havail₁ hreads
  rw [hstart] at hrun hmoves
  by_cases hend : ((newGet t.request req).advance sent).remaining = 0
  · -- one slice
    rw [if_pos hend, Prod.mk.injEq, Except.ok.injEq] at hrun
    obtain ⟨rfl, hservice⟩ := hrun
    have hgone : (c.run sha (t.opening connId)).service.gets
        (getKey connId (c.run sha t.others).service.getSeq) = none := by
      rw [hservice]
      exact Function.update_self _ _ _
    refine ⟨pieces, ((newGet t.request req).advance sent).sent, ?_,
      (hsends.streams_last hreads hsize hgone (.inl hend)).eq⟩
    rw [Fetch.allFrames, hrest.nil, List.flatMap_nil, List.append_nil, ← hout]
    rfl
  · -- more of them
    rw [if_neg hend, Prod.mk.injEq, Except.ok.injEq] at hrun
    obtain ⟨rfl, hservice⟩ := hrun
    have hkey' : t.key = getKey (Task.request connId t.peer t.request).connId
        (c.run sha t.others).service.getSeq := hkey.symm
    have hget : (c.run sha (t.opening connId)).service.gets t.key =
        some ((newGet t.request req).advance sent) := by
      rw [hservice, hkey']
      exact Function.update_self _ _ _
    have hmore : (c.run sha (t.opening connId)).Continues sha (.request connId t.peer t.request)
        t.key true t.slices := hrest
    obtain ⟨rest, total, hstreams, hframes⟩ := hmore.streams (n := 0) hsha hkey'
      (havail.run hbringOpening hstaysOpening) hmoves.numbered hbringSlices hstaysSlices hget
      (hsends.reads hreads hsize)
    refine ⟨pieces ++ rest, total, ?_, (hsends.streams hreads hsize hstreams).eq⟩
    rw [Fetch.allFrames, hframes, streamFrames_append, ← hout]
    rfl

end Clients

end ForgeRelay
