import ForgeRelay.Service.Authorization
import ForgeRelay.Service.Connections

/-!
# Tokens that have been withdrawn

A token is verified when a connection authenticates, and the identity is kept for the requests
that follow. So a token that is revoked, or whose user is disabled, authenticates no connection
any more; a connection which it has authenticated before stays as it is.
-/

namespace ForgeRelay

open Program

/-- The UNIQUE constraint of `token_hash`. -/
def AuthDb.UniqueHashes (db : AuthDb) : Prop := (db.token.map (·.tokenHash)).Nodup

/-- The token with this digest is revoked, or its user is disabled. -/
def AuthDb.Withdrawn (hash : Bytes) (db : AuthDb) : Prop :=
  ∃ t ∈ db.token, t.tokenHash = hash ∧
    (t.revoked = true ∨ ∃ u, db.owner? t = some u ∧ u.enabled = false)

section Registry

variable {sha : Sha256} {db db' : AuthDb} {now : Int64} {hash username random token : Bytes}
  {role : Role} {tokenId : UInt64} {ttlHours : UInt32}

theorem AuthDb.userAdd_ok (h : db.userAdd now username role = .ok db') :
    db' = { db with
      user := db.user ++ [⟨db.userSeq + 1, username, role, true, now⟩]
      userSeq := db.userSeq + 1 } ∧ username ∉ db.user.map (·.username) := by
  unfold userAdd at h
  split at h
  · cases h
  split at h
  · cases h
  rename_i hnew
  split at h
  · cases h
    refine ⟨rfl, fun hmem => hnew ?_⟩
    obtain ⟨u, hu, hname⟩ := List.mem_map.mp hmem
    exact List.any_eq_true.mpr ⟨u, hu, by simpa using hname⟩
  · cases h

theorem AuthDb.userDisable_ok (h : db.userDisable username = .ok db') :
    db' = { db with
      user := Table.update (·.username == username) (fun u => { u with enabled := false })
        db.user } := by
  unfold userDisable at h
  split at h
  · cases h
    rfl
  · cases h

private theorem AuthDb.owner?_disabled (h : db.userDisable username = .ok db') (t : TokenRow) :
    db'.owner? t = (db.owner? t).map fun u =>
      if u.username == username then { u with enabled := false } else u := by
  rw [userDisable_ok h]
  exact Table.find?_update (f := fun u : UserRow => { u with enabled := false }) (fun _ => rfl) _

theorem AuthDb.tokenRevoke_ok (h : db.tokenRevoke now tokenId = .ok db') :
    db' = { db with
      token := Table.update (TokenRow.isRevocable tokenId)
        (fun t => { t with revokedAt := some now }) db.token } := by
  unfold tokenRevoke at h
  split at h
  · cases h
    rfl
  · cases h

theorem AuthDb.tokenCreate_ok
    (h : db.tokenCreate sha now random username ttlHours = .ok (token, db')) :
    token = tokenText random ∧ ∃ u ∈ db.user, u.username = username ∧ u.enabled = true ∧
      db.tokenSeq < maxRowid ∧ db' = { db with
        token := db.token ++ [⟨db.tokenSeq + 1, u.id, sha.hex token,
          if ttlHours = 0 then 0 else now + ttlHours.toUInt64.toInt64 * 3600, none, now⟩]
        tokenSeq := db.tokenSeq + 1 } ∧
      sha.hex token ∉ db.token.map (·.tokenHash) := by
  unfold tokenCreate at h
  split at h
  · cases h
  rename_i u hu
  have hname : u.username = username := by simpa using List.find?_some hu
  split at h
  · cases h
  rename_i henabled
  dsimp only at h
  split at h
  · cases h
  rename_i hnew
  split at h
  · rename_i hseq
    cases h
    refine ⟨rfl, u, List.mem_of_find?_eq_some hu, hname,
      eq_true_of_ne_false henabled, hseq, rfl, fun hmem => hnew ?_⟩
    obtain ⟨t, ht, hhash⟩ := List.mem_map.mp hmem
    exact List.any_eq_true.mpr ⟨t, ht, by simpa using hhash⟩
  · cases h

private theorem AuthDb.uniqueHashes_stable (sha : Sha256) : AuthDb.Stable sha UniqueHashes where
  userAdd hdb h := by
    obtain ⟨rfl, -⟩ := userAdd_ok h
    exact hdb
  userDisable hdb h := by
    rw [userDisable_ok h]
    exact hdb
  tokenCreate hdb h := by
    obtain ⟨-, u, -, -, -, -, rfl, hnew⟩ := tokenCreate_ok h
    exact Table.nodup_append hdb hnew
  tokenRevoke {db db' now _} hdb h := by
    have hkeys : db'.token.map (·.tokenHash) = db.token.map (·.tokenHash) := by
      rw [tokenRevoke_ok h]
      exact Table.map_update (f := fun t : TokenRow => { t with revokedAt := some now })
        _ (fun _ => rfl) _
    rw [UniqueHashes, hkeys]
    exact hdb
  audit hdb := hdb

private theorem TokenRow.not_revocable {t : TokenRow} (h : t.revoked = true) :
    TokenRow.isRevocable tokenId t = false := by
  cases hat : t.revokedAt with
  | none => simp [revoked, hat] at h
  | some at' => simp [isRevocable, hat]

private theorem AuthDb.withdrawn_stable (sha : Sha256) : AuthDb.Stable sha (Withdrawn hash) where
  userAdd hdb h := by
    obtain ⟨t, ht, hhash, hdead⟩ := hdb
    obtain ⟨rfl, -⟩ := userAdd_ok h
    refine ⟨t, ht, hhash, hdead.imp_right fun ⟨v, hv, hoff⟩ => ⟨v, ?_, hoff⟩⟩
    rw [owner?] at hv ⊢
    rw [List.find?_append, hv]
    rfl
  userDisable {db db' _} hdb h := by
    obtain ⟨t, ht, hhash, hdead⟩ := hdb
    have htokens : db'.token = db.token := by rw [userDisable_ok h]
    refine ⟨t, htokens ▸ ht, hhash, hdead.imp_right fun ⟨v, hv, hoff⟩ => ?_⟩
    rw [owner?_disabled h, hv]
    refine ⟨_, rfl, ?_⟩
    dsimp only
    split
    · rfl
    · exact hoff
  tokenCreate hdb h := by
    obtain ⟨t, ht, hhash, hdead⟩ := hdb
    obtain ⟨-, u, -, -, -, -, rfl, -⟩ := tokenCreate_ok h
    exact ⟨t, List.mem_append_left _ ht, hhash, hdead⟩
  tokenRevoke hdb h := by
    obtain ⟨t, ht, hhash, hdead⟩ := hdb
    rw [tokenRevoke_ok h]
    rcases hdead with hrevoked | hdisabled
    · exact ⟨t, Table.mem_update_of_not ht (TokenRow.not_revocable hrevoked), hhash, .inl hrevoked⟩
    · refine ⟨_, Table.mem_update.mpr ⟨t, ht, rfl⟩, ?_, .inr ?_⟩
      · split <;> exact hhash
      · split <;> exact hdisabled
  audit hdb := hdb

private theorem AuthDb.tokenRevoke_withdrawn {t : TokenRow}
    (h : db.tokenRevoke now tokenId = .ok db')
    (hnow : now ≠ 0) (ht : t ∈ db.token) (hrow : TokenRow.isRevocable tokenId t = true) :
    db'.Withdrawn t.tokenHash := by
  rw [tokenRevoke_ok h]
  refine ⟨_, Table.mem_update.mpr ⟨t, ht, rfl⟩, ?_, .inl ?_⟩
  · rw [if_pos hrow]
  · rw [if_pos hrow]
    simpa [TokenRow.revoked] using hnow

private theorem AuthDb.userDisable_withdrawn {t : TokenRow} {u : UserRow}
    (h : db.userDisable username = .ok db') (ht : t ∈ db.token) (hu : db.owner? t = some u)
    (hname : u.username = username) : db'.Withdrawn t.tokenHash := by
  have htokens : db'.token = db.token := by rw [userDisable_ok h]
  refine ⟨t, htokens ▸ ht, rfl, .inr ?_⟩
  rw [owner?_disabled h, hu]
  exact ⟨_, rfl, by simp [hname]⟩

theorem AuthDb.tokenOwner?_some {t : TokenRow} {u : UserRow}
    (h : db.tokenOwner? sha token = some (t, u)) :
    t ∈ db.token ∧ t.tokenHash = sha.hex token ∧ db.owner? t = some u := by
  obtain ⟨r, hr, hsome⟩ := List.exists_of_findSome?_eq_some h
  split at hsome
  · rename_i hhash
    obtain ⟨v, hv, heq⟩ := Option.map_eq_some_iff.mp hsome
    cases heq
    exact ⟨hr, hhash, hv⟩
  · cases hsome

theorem AuthDb.tokenOwner?_eq {t : TokenRow} {u : UserRow} (hunique : db.UniqueHashes)
    (ht : t ∈ db.token) (hhash : t.tokenHash = sha.hex token) (hu : db.owner? t = some u) :
    db.tokenOwner? sha token = some (t, u) := by
  have hsome : (db.tokenOwner? sha token).isSome = true := by
    refine List.findSome?_isSome_iff.mpr ⟨t, ht, ?_⟩
    rw [if_pos hhash, hu]
    rfl
  obtain ⟨⟨t', u'⟩, hfound⟩ := Option.isSome_iff_exists.mp hsome
  obtain ⟨ht', hhash', hu'⟩ := tokenOwner?_some hfound
  obtain rfl : t' = t := Table.eq_of_key hunique ht' ht (hhash'.trans hhash.symm)
  obtain rfl : u' = u := Option.some.inj (hu'.symm.trans hu)
  exact hfound

private theorem AuthDb.verify_of_withdrawn (now : Int64) (hunique : db.UniqueHashes)
    (h : db.Withdrawn (sha.hex token)) : ∃ what, what.length ≤ maxStringLen ∧
      db.verify sha now token = .error (.fr .eUnauthenticated what) := by
  unfold verify
  split
  · exact ⟨_, by decide, rfl⟩
  split
  · exact ⟨_, by decide, rfl⟩
  rename_i t u hfound
  obtain ⟨ht, hhash, hu⟩ := tokenOwner?_some hfound
  obtain ⟨t', ht', hhash', hdead⟩ := h
  obtain rfl : t = t' := Table.eq_of_key hunique ht ht' (hhash.trans hhash'.symm)
  rcases hdead with hrevoked | ⟨w, hw, hoff⟩
  · rw [if_pos hrevoked]
    exact ⟨_, by decide, rfl⟩
  · obtain rfl : w = u := Option.some.inj (hw.symm.trans hu)
    split
    · exact ⟨_, by decide, rfl⟩
    split
    · exact ⟨_, by decide, rfl⟩
    · exact ⟨_, by decide, rfl⟩

end Registry

variable {sha : Sha256} {env : RequestEnv} {connId : Nat} {peer : Bytes} {session : ClientSession}
  {frame : FrFrame} {s s' : Service}

/-- What the server knows about who the client is. -/
structure SameIdentity (session session' : ClientSession) : Prop where
  authenticated : session'.authenticated = session.authenticated
  username : session'.username = session.username
  role : session'.role = session.role

theorem SameIdentity.refl (session : ClientSession) : SameIdentity session session :=
  ⟨rfl, rfl, rfl⟩

private theorem replyError_identity {code : FrStatus} {what : Bytes} {result : HandleResult}
    {session' : ClientSession}
    (h : (replyError env peer session frame code what).run s = (.ok (result, session'), s')) :
    SameIdentity session session' := by
  unfold replyError at h
  dsimp only at h
  split at h
  · obtain ⟨u, s₁, -, hrest⟩ := Prog.run_bind_ok h
    obtain ⟨payload, s₂, -, hlast⟩ := Prog.run_bind_ok hrest
    cases hlast
    exact ⟨rfl, rfl, rfl⟩
  · obtain ⟨payload, s₂, -, hlast⟩ := Prog.run_bind_ok h
    cases hlast
    exact .refl session

private theorem replyError_frames {code : FrStatus} {what : Bytes} {result : HandleResult}
    {session' : ClientSession}
    (h : (replyError env peer session frame code what).run s = (.ok (result, session'), s')) :
    ∀ f ∈ result.out, f.type = FrMsgType.error.toByte := by
  have hemit : ∀ payload : Bytes, ∀ f ∈ emit [] .error (outReqId frame) payload,
      f.type = FrMsgType.error.toByte := by
    intro payload f hf
    unfold emit at hf
    split at hf
    · rw [List.nil_append, List.mem_singleton] at hf
      rw [hf]
    · cases hf
  unfold replyError at h
  dsimp only at h
  split at h
  · obtain ⟨u, s₁, -, hrest⟩ := Prog.run_bind_ok h
    obtain ⟨payload, s₂, -, hlast⟩ := Prog.run_bind_ok hrest
    cases hlast
    exact hemit payload
  · obtain ⟨payload, s₂, -, hlast⟩ := Prog.run_bind_ok h
    cases hlast
    exact hemit payload

private theorem verifyAuth_ok {ok : AuthOk}
    (h : (verifyAuth sha env peer frame).run s = (.ok ok, s')) :
    ∃ req, decodeFrame decodeAuthReq frame = .ok req ∧
      s.auth.verify sha env.call.now req.token = .ok ok := by
  obtain ⟨u, s₁, hcheck, hrest⟩ := Prog.run_bind_ok h
  obtain ⟨req, s₂, hdecode, hverify⟩ := Prog.run_bind_ok hrest
  obtain ⟨hreq, rfl⟩ := Prog.run_ofExcept_ok hdecode
  have hstate := checkPeerNotBlocked_state env peer s
  rw [hcheck] at hstate
  subst hstate
  rw [registry, Prog.run_lift] at hverify
  exact ⟨req, hreq, congrArg Prod.fst hverify⟩

private theorem handleFrame_identity {session' : ClientSession} {result : Except Error HandleResult}
    (h : (handleFrame sha env connId peer session frame).run s = (.ok (session', result), s')) :
    SameIdentity session session' ∨ ∃ ok, FrMsgType.ofByte frame.type = some .auth ∧
      (verifyAuth sha env peer frame).run s = (.ok ok, s) := by
  unfold handleFrame at h
  split at h
  · split at h <;> cases h <;> exact .inl ⟨rfl, rfl, rfl⟩
  · rename_i htype
    obtain ⟨verified, s₁, hverify, hrest⟩ := Prog.run_bind_ok h
    cases verified with
    | error e =>
      cases hrest
      exact .inl (.refl session)
    | ok ok =>
      rw [outcome_run] at hverify
      exact .inr ⟨ok, htype, Prod.ext (Except.ok.inj (congrArg Prod.fst hverify))
        (verifyAuth_state sha env peer frame s)⟩
  · cases h
    exact .inl (.refl session)
  · cases h
    exact .inl (.refl session)
  · obtain ⟨r, s₁, -, hrest⟩ := Prog.run_bind_ok h
    cases hrest
    exact .inl (.refl session)

theorem handle_identity {result : HandleResult} {session' : ClientSession}
    (h : (handle sha env connId peer session frame).run s = (.ok (result, session'), s')) :
    SameIdentity session session' ∨ ∃ ok, FrMsgType.ofByte frame.type = some .auth ∧
      (verifyAuth sha env peer frame).run s = (.ok ok, s) := by
  obtain ⟨⟨session₁, r⟩, s₁, hframe, hrest⟩ := Prog.run_bind_ok h
  refine (handleFrame_identity hframe).imp_left fun hsame => ?_
  cases r with
  | ok result' =>
    cases hrest
    exact hsame
  | error e =>
    cases e with
    | std what => cases hrest
    | fr code what =>
      have hreply := replyError_identity hrest
      exact ⟨hreply.authenticated.trans hsame.authenticated,
        hreply.username.trans hsame.username, hreply.role.trans hsame.role⟩

private theorem handle_succeeded {result : HandleResult} {session' : ClientSession}
    (hbusiness : frame.isBusiness = true)
    (h : (handle sha env connId peer session frame).run s = (.ok (result, session'), s'))
    (hok : ∃ f ∈ result.out, f.type = FrMsgType.ok.toByte) :
    (dispatchBusiness sha env connId session frame).run s = (.ok result, s') := by
  obtain ⟨⟨session₁, r⟩, s₁, hframe, hrest⟩ := Prog.run_bind_ok h
  cases r with
  | error e =>
    cases e with
    | std what => cases hrest
    | fr code what =>
      obtain ⟨f, hf, htype⟩ := hok
      have herror := replyError_frames hrest f hf
      rw [htype] at herror
      exact absurd herror (by decide)
  | ok result' =>
    cases hrest
    rw [handleFrame_business hbusiness] at hframe
    obtain ⟨r, s₂, hout, hlast⟩ := Prog.run_bind_ok hframe
    cases hlast
    rw [outcome_run] at hout
    injection hout with hresult hstate
    split at hresult
    · cases hresult
    · rename_i hauth
      rw [if_neg hauth] at hstate
      exact Prod.ext (Except.ok.inj hresult) hstate

/-- A request to revoke the token with this digest, or to disable its user. -/
def Withdraws (hash : Bytes) (db : AuthDb) (frame : FrFrame) : Prop :=
  match FrMsgType.ofByte frame.type with
  | some .tokenRevoke => ∃ tokenId, decodeFrame getU64 frame = .ok tokenId ∧
      ∃ t ∈ db.token, TokenRow.isRevocable tokenId t = true ∧ t.tokenHash = hash
  | some .userDisable => ∃ username, decodeFrame getStr frame = .ok username ∧
      ∃ t ∈ db.token, t.tokenHash = hash ∧ ∃ u, db.owner? t = some u ∧ u.username = username
  | _ => False

private theorem registryUpdate_map_ok {f : AuthDb → Except Error AuthDb} {u : Unit}
    (h : (registryUpdate fun auth => (f auth).map ((), ·)).run s = (.ok u, s')) :
    ∃ auth, f s.auth = .ok auth ∧ s'.auth = auth := by
  rw [registryUpdate, Prog.run_lift] at h
  cases hrun : f s.auth with
  | error e =>
    simp only [hrun, Except.map] at h
    cases h
  | ok auth =>
    simp only [hrun, Except.map] at h
    cases h
    exact ⟨auth, rfl, rfl⟩

private theorem audit_withdrawn (env : RequestEnv) (session : ClientSession) (action target : Bytes)
    {hash : Bytes} (h : s.auth.Withdrawn hash) :
    ((audit env session action target).run s).2.auth.Withdrawn hash := by
  rw [audit, registryUpdate, Prog.run_lift]
  exact h

private theorem withdraws_withdrawn {hash : Bytes} {result : HandleResult}
    (h : (dispatchBusiness sha env connId session frame).run s = (.ok result, s'))
    (hwithdraws : Withdraws hash s.auth frame) (hnow : env.call.now ≠ 0) :
    s'.auth.Withdrawn hash := by
  unfold Withdraws at hwithdraws
  unfold dispatchBusiness at h
  split at hwithdraws
  · rename_i htype
    obtain ⟨tokenId, hdecode, t, ht, hrow, rfl⟩ := hwithdraws
    rw [htype] at h
    unfold handleTokenRevoke at h
    obtain ⟨u, s₁, hrole, h₁⟩ := Prog.run_bind_ok h
    obtain ⟨-, rfl⟩ := Prog.run_ofExcept_ok hrole
    obtain ⟨id', s₂, hdec, h₂⟩ := Prog.run_bind_ok h₁
    obtain ⟨hid, rfl⟩ := Prog.run_ofExcept_ok hdec
    obtain rfl : tokenId = id' := Except.ok.inj (hdecode.symm.trans hid)
    obtain ⟨u, s₃, hrevoke, h₃⟩ := Prog.run_bind_ok h₂
    obtain ⟨auth, hok, hauth⟩ := registryUpdate_map_ok hrevoke
    obtain ⟨u, s₄, haudit, h₄⟩ := Prog.run_bind_ok h₃
    cases h₄
    have hdead := audit_withdrawn env session (ascii "token.revoke")
      (ascii (toString tokenId.toNat)) (hauth ▸ AuthDb.tokenRevoke_withdrawn hok hnow ht hrow)
    rwa [haudit] at hdead
  · rename_i htype
    obtain ⟨username, hdecode, t, ht, rfl, u, hu, hname⟩ := hwithdraws
    rw [htype] at h
    unfold handleUserDisable at h
    obtain ⟨u', s₁, hrole, h₁⟩ := Prog.run_bind_ok h
    obtain ⟨-, rfl⟩ := Prog.run_ofExcept_ok hrole
    obtain ⟨name, s₂, hdec, h₂⟩ := Prog.run_bind_ok h₁
    obtain ⟨hid, rfl⟩ := Prog.run_ofExcept_ok hdec
    obtain rfl : username = name := Except.ok.inj (hdecode.symm.trans hid)
    obtain ⟨u', s₃, hdisable, h₃⟩ := Prog.run_bind_ok h₂
    obtain ⟨auth, hok, hauth⟩ := registryUpdate_map_ok hdisable
    obtain ⟨u', s₄, haudit, h₄⟩ := Prog.run_bind_ok h₃
    cases h₄
    have hdead := audit_withdrawn env session (ascii "user.disable") username
      (hauth ▸ AuthDb.userDisable_withdrawn hok ht hu hname)
    rwa [haudit] at hdead
  · exact hwithdraws.elim

/-- The registry with a token that has been withdrawn. -/
structure AuthDb.Closed (hash : Bytes) (db : AuthDb) : Prop where
  unique : db.UniqueHashes
  withdrawn : db.Withdrawn hash

private theorem AuthDb.closed_stable {hash : Bytes} : AuthDb.Stable sha (Closed hash) where
  userAdd hdb h := ⟨(uniqueHashes_stable sha).userAdd hdb.unique h,
    (withdrawn_stable sha).userAdd hdb.withdrawn h⟩
  userDisable hdb h := ⟨(uniqueHashes_stable sha).userDisable hdb.unique h,
    (withdrawn_stable sha).userDisable hdb.withdrawn h⟩
  tokenCreate hdb h := ⟨(uniqueHashes_stable sha).tokenCreate hdb.unique h,
    (withdrawn_stable sha).tokenCreate hdb.withdrawn h⟩
  tokenRevoke hdb h := ⟨(uniqueHashes_stable sha).tokenRevoke hdb.unique h,
    (withdrawn_stable sha).tokenRevoke hdb.withdrawn h⟩
  audit hdb := ⟨hdb.unique, hdb.withdrawn⟩

/-- The reply is one ERROR frame, with the status of a missing authentication. -/
def RejectedUnauthenticated (reply : Option (Except Error HandleResult)) : Prop :=
  ∃ result error what, reply = some (.ok result) ∧ result.out = [error] ∧
    error.type = FrMsgType.error.toByte ∧
    decodeFrame decodeErrorPayload error = .ok ⟨FrStatus.eUnauthenticated.code, what⟩

variable {token : Bytes}

private theorem verifyAuth_rejected (env : RequestEnv) (peer : Bytes)
    (hdb : s.auth.Closed (sha.hex token))
    (hdecode : decodeFrame decodeAuthReq frame = .ok ⟨token⟩) :
    ∃ what, what.length ≤ maxStringLen ∧
      (verifyAuth sha env peer frame).run s = (.error (.fr .eUnauthenticated what), s) := by
  rw [verifyAuth, Prog.run_bind, checkPeerNotBlocked, Prog.run_lift]
  have hrest : ∃ what, what.length ≤ maxStringLen ∧
      (decode decodeAuthReq frame >>= fun req =>
        registry fun auth => auth.verify sha env.call.now req.token).run s =
      (.error (.fr .eUnauthenticated what), s) := by
    obtain ⟨what, hlen, hverify⟩ := AuthDb.verify_of_withdrawn env.call.now hdb.unique
      hdb.withdrawn
    refine ⟨what, hlen, ?_⟩
    rw [decode, hdecode]
    change ((registry fun auth => auth.verify sha env.call.now token).run s) = _
    rw [registry, Prog.run_lift, hverify]
  split <;> rename_i hblock
  · split at hblock
    · split at hblock <;> cases hblock
      exact hrest
    · cases hblock
      exact hrest
  · split at hblock
    · split at hblock <;> cases hblock
      exact ⟨_, by decide, rfl⟩
    · cases hblock

private theorem handle_withdrawn (env : RequestEnv) (connId : Nat) (peer : Bytes)
    (session : ClientSession) (hdb : s.auth.Closed (sha.hex token))
    (htype : FrMsgType.ofByte frame.type = some .auth)
    (hdecode : decodeFrame decodeAuthReq frame = .ok ⟨token⟩) :
    ∃ result session' s' what, what.length ≤ maxStringLen ∧
      (handle sha env connId peer session frame).run s = (.ok (result, session'), s') ∧
      result.out = [errorFrame (outReqId frame) .eUnauthenticated what] := by
  obtain ⟨what, hlen, hverify⟩ := verifyAuth_rejected env peer hdb hdecode
  have hframe : (handleFrame sha env connId peer session frame).run s =
      (.ok (session, .error (.fr .eUnauthenticated what)), s) := by
    unfold handleFrame
    rw [htype]
    dsimp only
    rw [Prog.run_bind, outcome_run, hverify]
    rfl
  rw [handle, Prog.run_bind, hframe]
  exact ⟨_, _, _, what, hlen, replyError_auth htype hlen, rfl⟩

namespace Clients

variable {c : Clients} {events : List ClientEvent}

private theorem next_closed {hash : Bytes} (h : c.service.auth.Closed hash) (e : ClientEvent) :
    (c.next sha e).service.auth.Closed hash :=
  next_keepsAuth AuthDb.closed_stable h e

theorem reply_eq (hsession : c.sessions connId = some session) :
    c.reply sha connId env peer frame =
      some (((handle sha env connId peer session frame).run c.service).1.map Prod.fst) := by
  rw [reply, hsession]
  rfl

private theorem auth_rejected (hdb : c.service.auth.Closed (sha.hex token))
    (hsession : c.sessions connId = some session)
    (htype : FrMsgType.ofByte frame.type = some .auth)
    (hdecode : decodeFrame decodeAuthReq frame = .ok ⟨token⟩) :
    RejectedUnauthenticated (c.reply sha connId env peer frame) ∧
      ∃ session', (c.next sha (.request connId env peer frame)).sessions connId = some session' ∧
        SameIdentity session session' := by
  obtain ⟨result, session', s', what, hlen, hrun, hout⟩ :=
    handle_withdrawn env connId peer session hdb htype hdecode
  refine ⟨⟨result, _, what, by rw [reply_eq hsession, hrun]; rfl, hout, rfl,
    decode_errorFrame hlen⟩, session', ?_, ?_⟩
  · simp only [next, hsession, hrun, Function.update_self]
  · refine (handle_identity hrun).resolve_right ?_
    rintro ⟨ok, -, hverify⟩
    obtain ⟨req, hreq, hverified⟩ := verifyAuth_ok hverify
    obtain rfl : (⟨token⟩ : AuthReq) = req := Except.ok.inj (hdecode.symm.trans hreq)
    obtain ⟨what', -, hrejected⟩ := AuthDb.verify_of_withdrawn env.call.now hdb.unique
      hdb.withdrawn
    rw [hrejected] at hverified
    cases hverified

/-- On this connection no other token is presented. -/
def PresentsOnly (token : Bytes) (connId : Nat) (events : List ClientEvent) : Prop :=
  ∀ env peer frame req, .request connId env peer frame ∈ events →
    decodeFrame decodeAuthReq frame = .ok req → req.token = token

private theorem next_unauthenticated {e : ClientEvent} (hdb : c.service.auth.Closed (sha.hex token))
    (honly : PresentsOnly token connId [e])
    (h : ∀ session, c.sessions connId = some session → session.authenticated = false) :
    ∀ session, (c.next sha e).sessions connId = some session → session.authenticated = false := by
  intro session' hsession'
  cases e with
  | connect id =>
    simp only [next] at hsession'
    split at hsession'
    · exact h session' hsession'
    · change Function.update c.sessions id (some .fresh) connId = _ at hsession'
      by_cases hid : connId = id
      · subst hid
        rw [Function.update_self] at hsession'
        cases hsession'
        rfl
      · rw [Function.update_of_ne hid] at hsession'
        exact h session' hsession'
  | disconnect id =>
    by_cases hid : connId = id
    · subst hid
      simp [next] at hsession'
    · simp only [next, Function.update_of_ne hid] at hsession'
      exact h session' hsession'
  | resume key => exact h session' hsession'
  | maintenance env => exact h session' hsession'
  | request id env peer frame =>
    cases hfound : c.sessions id with
    | none =>
      simp only [next, hfound] at hsession'
      exact h session' hsession'
    | some session =>
      rcases hrun : (handle sha env id peer session frame).run c.service with
        ⟨r | ⟨result, after⟩, s'⟩
      · simp only [next, hfound, hrun] at hsession'
        exact h session' hsession'
      simp only [next, hfound, hrun] at hsession'
      by_cases hid : connId = id
      · subst hid
        rw [Function.update_self] at hsession'
        cases hsession'
        rcases handle_identity hrun with hsame | ⟨ok, -, hverify⟩
        · rw [hsame.authenticated]
          exact h session hfound
        · obtain ⟨req, hreq, hverified⟩ := verifyAuth_ok hverify
          obtain ⟨what, -, hrejected⟩ := AuthDb.verify_of_withdrawn env.call.now hdb.unique
            hdb.withdrawn
          rw [honly env peer frame req (List.mem_singleton.mpr rfl) hreq, hrejected] at hverified
          cases hverified
      · rw [Function.update_of_ne hid] at hsession'
        exact h session' hsession'

private theorem run_unauthenticated (hdb : c.service.auth.Closed (sha.hex token))
    (honly : PresentsOnly token connId events)
    (h : ∀ session, c.sessions connId = some session → session.authenticated = false) :
    ∀ session, (c.run sha events).sessions connId = some session →
      session.authenticated = false := by
  induction events generalizing c with
  | nil => exact h
  | cons e events ih =>
    refine ih (next_closed hdb e) (fun env peer frame req he => ?_)
      (next_unauthenticated hdb (fun env peer frame req he => ?_) h)
    · exact honly env peer frame req (List.mem_cons_of_mem _ he)
    · rw [List.mem_singleton] at he
      exact honly env peer frame req (he ▸ List.mem_cons_self)

private theorem next_withdrawn {result : HandleResult}
    (hreply : c.reply sha connId env peer frame = some (.ok result))
    (hok : ∃ f ∈ result.out, f.type = FrMsgType.ok.toByte)
    (hwithdraws : Withdraws (sha.hex token) c.service.auth frame) (hclock : env.call.now ≠ 0) :
    (c.next sha (.request connId env peer frame)).service.auth.Withdrawn (sha.hex token) := by
  obtain ⟨session, hsession, hresult⟩ := Option.map_eq_some_iff.mp hreply
  rcases hrun : (handle sha env connId peer session frame).run c.service with
    ⟨e | ⟨result', session'⟩, s'⟩
  · rw [hrun] at hresult
    cases hresult
  · rw [hrun] at hresult
    cases hresult
    have hbusiness : frame.isBusiness = true := by
      unfold Withdraws at hwithdraws
      unfold FrFrame.isBusiness
      split at hwithdraws <;> simp_all
    have hdead := withdraws_withdrawn (handle_succeeded hbusiness hrun hok) hwithdraws hclock
    simp only [next, hsession, hrun]
    exact hdead

/-- Once a request to revoke a token, or to disable its user, has been answered with OK, no AUTH
with the token is accepted on any connection, and a connection which was not authenticated then
and presents no other token gets an ERROR frame for each of its business requests. -/
theorem withdrawn_token_rejected {store : Store} {auth : AuthDb} {result : HandleResult}
    (hunique : auth.UniqueHashes) (earlier later : List ClientEvent)
    (hreply : ((start store auth).run sha earlier).reply sha connId env peer frame =
      some (.ok result))
    (hok : ∃ f ∈ result.out, f.type = FrMsgType.ok.toByte)
    (hwithdraws : Withdraws (sha.hex token) ((start store auth).run sha earlier).service.auth frame)
    (hclock : env.call.now ≠ 0) :
    let withdrawn := ((start store auth).run sha earlier).next sha (.request connId env peer frame)
    let after := withdrawn.run sha later
    (∀ connId env peer frame session, after.sessions connId = some session →
      FrMsgType.ofByte frame.type = some .auth → decodeFrame decodeAuthReq frame = .ok ⟨token⟩ →
      RejectedUnauthenticated (after.reply sha connId env peer frame) ∧
        ∃ session', (after.next sha (.request connId env peer frame)).sessions connId =
          some session' ∧ SameIdentity session session') ∧
    ∀ connId, (∀ session, withdrawn.sessions connId = some session →
        session.authenticated = false) →
      PresentsOnly token connId later → ∀ env peer frame session,
      after.sessions connId = some session → frame.isBusiness = true →
      RejectedUnauthenticated (after.reply sha connId env peer frame) := by
  intro withdrawn after
  have hbefore := run_keepsAuth (AuthDb.uniqueHashes_stable sha)
    (show (start store auth).service.auth.UniqueHashes from hunique) earlier
  have hclosed : withdrawn.service.auth.Closed (sha.hex token) := by
    refine ⟨next_keepsAuth (AuthDb.uniqueHashes_stable sha) hbefore _, ?_⟩
    exact next_withdrawn hreply hok hwithdraws hclock
  have hafter : after.service.auth.Closed (sha.hex token) :=
    run_keepsAuth AuthDb.closed_stable hclosed later
  refine ⟨fun connId env peer frame session hsession htype hdecode =>
    auth_rejected hafter hsession htype hdecode,
    fun connId hconn honly env peer frame session hsession hbusiness => ?_⟩
  have hauth := run_unauthenticated hclosed honly hconn session hsession
  have hrun := handle_unauthenticated sha env connId peer after.service hauth hbusiness
  exact ⟨_, _, _, by rw [reply_eq hsession, hrun]; rfl, rfl, rfl, decode_errorFrame (by decide)⟩

end Clients

/-- A digest that tells the contents of the example apart. -/
def prefixSha : Sha256 := ⟨fun data => (data ++ List.replicate 32 0).take 32, by simp⟩

/-- The administrator `root`, with a token made of the bytes `n`. -/
def rootAuth (n : UInt8) : AuthDb :=
  (AuthDb.empty.userAdd 1 (ascii "root") .admin >>= fun db =>
    db.tokenCreate prefixSha 1 (List.replicate 32 n) (ascii "root") 0).toOption.elim .empty Prod.snd

/-- A request, where random bytes are `n`. -/
def sampleRequest (n : UInt8) (connId : Nat) (type : FrMsgType) (enc : MsgEncoder) : ClientEvent :=
  .request connId { sampleRequestEnv 2 with random := List.replicate 32 n } []
    (sampleFrame type enc)

def bobToken : Bytes := tokenText (List.replicate 32 2)

/-- `root` adds the user `bob` with a token, and `bob` authenticates on a connection of its own. -/
def sampleLogins : List ClientEvent :=
  [.connect 1, sampleRequest 0 1 .auth (encodeAuthReq ⟨tokenText (List.replicate 32 1)⟩),
    sampleRequest 0 1 .userAdd (encodeUserAddReq ⟨ascii "bob", 0⟩),
    sampleRequest 2 1 .tokenCreate (encodeTokenCreateReq ⟨ascii "bob", 0⟩),
    .connect 2, sampleRequest 0 2 .auth (encodeAuthReq ⟨bobToken⟩)]

def sampleClients : Clients := (Clients.start .empty (rootAuth 1)).run prefixSha sampleLogins

/-- The request to revoke the token of `bob`. -/
def sampleRevoke : FrFrame := sampleFrame .tokenRevoke (putU64 2)

private theorem sampleRevoke_withdraws :
    Withdraws (prefixSha.hex bobToken) sampleClients.service.auth sampleRevoke :=
  ⟨2, by decide +kernel, ⟨2, 2, prefixSha.hex bobToken, 0, none, 2⟩, by decide +kernel,
    by decide +kernel, rfl⟩

private theorem sampleRevoke_reply :
    sampleClients.reply prefixSha 1 (sampleRequestEnv 3) [] sampleRevoke =
      some (.ok (okEmpty sampleRevoke)) := by
  decide +kernel

/-- The token of `bob` is revoked; then a new connection presents it. -/
theorem withdrawn_token_rejected_sample :
    let after := (sampleClients.next prefixSha
      (.request 1 (sampleRequestEnv 3) [] sampleRevoke)).run prefixSha [.connect 3]
    RejectedUnauthenticated (after.reply prefixSha 3 (sampleRequestEnv 4) []
      (sampleFrame .auth (encodeAuthReq ⟨bobToken⟩))) ∧
    RejectedUnauthenticated (after.reply prefixSha 3 (sampleRequestEnv 4) []
      (sampleFrame .status (pure ()))) := by
  intro after
  have hunique : (rootAuth 1).UniqueHashes := by
    unfold AuthDb.UniqueHashes
    decide +kernel
  have hrejected := Clients.withdrawn_token_rejected hunique sampleLogins [.connect 3]
    sampleRevoke_reply (by decide +kernel) sampleRevoke_withdraws (by decide)
  refine ⟨(hrejected.1 3 (sampleRequestEnv 4) [] (sampleFrame .auth (encodeAuthReq ⟨bobToken⟩))
    .fresh (by decide +kernel) (by decide) (by decide +kernel)).1, ?_⟩
  refine hrejected.2 3 (fun session hsession => ?_) (fun env peer frame req he => ?_)
    (sampleRequestEnv 4) [] (sampleFrame .status (pure ())) .fresh (by decide +kernel) (by decide)
  · have hclosed : (sampleClients.next prefixSha
        (.request 1 (sampleRequestEnv 3) [] sampleRevoke)).sessions 3 = none := by decide +kernel
    cases hsession.symm.trans hclosed
  · cases he with
    | tail _ h => cases h

/-- The connection that `bob` has opened before is still served. -/
theorem revoked_session_served :
    let before := sampleClients
    let after := before.next prefixSha (.request 1 (sampleRequestEnv 3) [] sampleRevoke)
    sampleRequest 0 2 .auth (encodeAuthReq ⟨bobToken⟩) ∈ sampleLogins ∧
      before.sessions 2 = some ⟨false, true, ascii "bob", .reader, 0⟩ ∧
      before.reply prefixSha 1 (sampleRequestEnv 3) [] sampleRevoke =
        some (.ok (okEmpty sampleRevoke)) ∧
      Withdraws (prefixSha.hex bobToken) before.service.auth sampleRevoke ∧
      ((after.reply prefixSha 2 (sampleRequestEnv 4) [] (sampleFrame .status (pure ()))).bind
        (·.toOption)).map (fun result => result.out.map (·.type)) = some [FrMsgType.ok.toByte] :=
  ⟨by simp [sampleLogins], by decide +kernel, sampleRevoke_reply, sampleRevoke_withdraws,
    by decide +kernel⟩

end ForgeRelay
