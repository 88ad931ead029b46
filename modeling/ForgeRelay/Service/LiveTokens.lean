import ForgeRelay.Lib.Words
import ForgeRelay.Service.Revocation

/-!
# Tokens that are live

What the calls of the registry have done is kept beside its tables. The rows of `user` and `token`
say the same as these records, with 0 for a token that never expires and NULL for one that is not
revoked, so `verify` accepts the tokens which the records say are live.
-/

namespace ForgeRelay

/-- A call that changes the registry. -/
inductive AuthCall
  | userAdd (username : Bytes) (role : Role)
  | userDisable (username : Bytes)
  | tokenCreate (username : Bytes) (ttlHours : UInt32)
  | tokenRevoke (tokenId : UInt64)
  deriving DecidableEq, Repr

/-- A call, with the clock's reading and what `random_bytes` returns. -/
structure AuthRequest where
  call : AuthCall
  now : Int64
  random : Bytes
  deriving DecidableEq, Repr

/-- A token that `token_create` has returned, and the id of its row. -/
structure Grant where
  token : Bytes
  id : Nat
  username : Bytes
  createdAt : Int64
  ttlHours : UInt32
  deriving DecidableEq, Repr

/-- What a call has done that has returned. -/
inductive AuthEffect
  | added (username : Bytes) (role : Role)
  | disabled (username : Bytes)
  | issued (grant : Grant)
  | revoked (tokenId : UInt64)
  deriving DecidableEq, Repr

/-- One call of the registry. -/
def AuthDb.perform (sha : Sha256) (db : AuthDb) (request : AuthRequest) :
    Except Error (AuthEffect × AuthDb) :=
  match request.call with
  | .userAdd username role => (db.userAdd request.now username role).map (.added username role, ·)
  | .userDisable username => (db.userDisable username).map (.disabled username, ·)
  | .tokenCreate username ttlHours =>
    (db.tokenCreate sha request.now request.random username ttlHours).map fun (token, db') =>
      (.issued ⟨token, db'.tokenSeq, username, request.now, ttlHours⟩, db')
  | .tokenRevoke tokenId => (db.tokenRevoke request.now tokenId).map (.revoked tokenId, ·)

/-- The registry, and what has been done to it in order. -/
structure AuthHistory where
  done : List AuthEffect
  db : AuthDb
  deriving DecidableEq, Repr

/-- A call that throws has no effect. -/
def AuthHistory.record (sha : Sha256) (h : AuthHistory) (request : AuthRequest) : AuthHistory :=
  match h.db.perform sha request with
  | .ok (effect, db) => ⟨h.done ++ [effect], db⟩
  | .error _ => h

/-- A fresh registry behind the calls. -/
def authHistory (sha : Sha256) (requests : List AuthRequest) : AuthHistory :=
  requests.foldl (AuthHistory.record sha) ⟨[], .empty⟩

/-- A reading of `system_clock`: behind the epoch, and its nanoseconds fit into 64 bits. -/
def SystemClock (now : Int64) : Prop := 0 < now.toInt ∧ now.toInt ≤ 9223372036

instance (now : Int64) : Decidable (SystemClock now) := inferInstanceAs (Decidable (_ ∧ _))

/-- The token has been returned by `token_create`; it is not revoked, has not expired, and its user
is not disabled. -/
structure Grant.Live (done : List AuthEffect) (now : Int64) (g : Grant) : Prop where
  issued : .issued g ∈ done
  notRevoked : ∀ tokenId : UInt64, .revoked tokenId ∈ done → tokenId.toNat ≠ g.id
  notExpired : g.ttlHours = 0 ∨ now.toInt < g.createdAt.toInt + 3600 * g.ttlHours.toNat
  notDisabled : .disabled g.username ∉ done

def AuthEffect.added? : AuthEffect → Option (Bytes × Role)
  | .added username role => some (username, role)
  | _ => none

def AuthEffect.issued? : AuthEffect → Option Grant
  | .issued grant => some grant
  | _ => none

/-- The users that have been added. -/
def AuthHistory.added (h : AuthHistory) : List (Bytes × Role) := h.done.filterMap AuthEffect.added?

/-- The tokens that have been issued. -/
def AuthHistory.issued (h : AuthHistory) : List Grant := h.done.filterMap AuthEffect.issued?

private theorem AuthHistory.mem_added {h : AuthHistory} {username : Bytes} {role : Role} :
    (username, role) ∈ h.added ↔ .added username role ∈ h.done := by
  rw [added, List.mem_filterMap]
  constructor
  · rintro ⟨effect, heffect, hsome⟩
    cases effect <;> cases hsome
    exact heffect
  · exact fun hmem => ⟨_, hmem, rfl⟩

private theorem AuthHistory.mem_issued {h : AuthHistory} {g : Grant} :
    g ∈ h.issued ↔ .issued g ∈ h.done := by
  rw [issued, List.mem_filterMap]
  constructor
  · rintro ⟨effect, heffect, hsome⟩
    cases effect <;> cases hsome
    exact heffect
  · exact fun hmem => ⟨_, hmem, rfl⟩

/-- The row of a user. -/
structure UserRow.Records (done : List AuthEffect) (u : UserRow) (added : Bytes × Role) : Prop where
  username : u.username = added.1
  role : u.role = added.2
  enabled : u.enabled = true ↔ .disabled added.1 ∉ done

/-- `expires_at` as `token_create` computes it. -/
def Grant.expiresAt (g : Grant) : Int64 :=
  if g.ttlHours = 0 then 0 else g.createdAt + g.ttlHours.toUInt64.toInt64 * 3600

/-- The row of a token. -/
structure TokenRow.Records (sha : Sha256) (done : List AuthEffect) (users : List UserRow)
    (t : TokenRow) (g : Grant) : Prop where
  nonempty : g.token ≠ []
  id : t.id = g.id
  hash : t.tokenHash = sha.hex g.token
  expires : t.expiresAt = g.expiresAt
  clock : SystemClock g.createdAt
  owner : ∃ u ∈ users, u.id = t.userId ∧ u.username = g.username
  revoked : t.revoked = true ↔ ∃ tokenId : UInt64, .revoked tokenId ∈ done ∧ tokenId.toNat = g.id
  notZero : t.revokedAt ≠ some 0

/-- The tables say what has been done. -/
structure AuthHistory.Recorded (sha : Sha256) (h : AuthHistory) : Prop where
  users : List.Forall₂ (UserRow.Records h.done) h.db.user h.added
  tokens : List.Forall₂ (TokenRow.Records sha h.done h.db.user) h.db.token h.issued
  userNames : (h.db.user.map (·.username)).Nodup
  userIds : (h.db.user.map (·.id)).Nodup
  usersBelow : ∀ u ∈ h.db.user, u.id ≤ h.db.userSeq
  hashes : h.db.UniqueHashes
  tokensBelow : ∀ t ∈ h.db.token, t.id ≤ h.db.tokenSeq
  seqBelow : h.db.tokenSeq ≤ maxRowid
  disabled : ∀ username, .disabled username ∈ h.done → username ∈ h.db.user.map (·.username)
  revoked : ∀ tokenId : UInt64, .revoked tokenId ∈ h.done → tokenId.toNat ≤ h.db.tokenSeq

private theorem AuthHistory.recorded_empty (sha : Sha256) :
    (AuthHistory.mk [] .empty).Recorded sha where
  users := .nil
  tokens := .nil
  userNames := .nil
  userIds := .nil
  usersBelow := nofun
  hashes := .nil
  tokensBelow := nofun
  seqBelow := Nat.zero_le _
  disabled := nofun
  revoked := nofun

section

variable {sha : Sha256} {done done' : List AuthEffect} {db db' : AuthDb} {now : Int64}
  {username : Bytes}

theorem UserRow.Records.mono {u : UserRow} {added : Bytes × Role} (h : u.Records done added)
    (hdone : ∀ name, .disabled name ∈ done' ↔ .disabled name ∈ done) : u.Records done' added :=
  ⟨h.username, h.role, by rw [h.enabled, hdone]⟩

theorem TokenRow.Records.mono {users users' : List UserRow} {t : TokenRow} {g : Grant}
    (h : t.Records sha done users g)
    (husers : ∀ u ∈ users, ∃ u' ∈ users', u'.id = u.id ∧ u'.username = u.username)
    (hdone : ∀ tokenId, .revoked tokenId ∈ done' ↔ .revoked tokenId ∈ done) :
    t.Records sha done' users' g := by
  obtain ⟨u, hu, hid, hname⟩ := h.owner
  obtain ⟨u', hu', hid', hname'⟩ := husers u hu
  refine { h with owner := ⟨u', hu', hid'.trans hid, hname'.trans hname⟩, revoked := ?_ }
  rw [h.revoked]
  exact exists_congr fun tokenId => and_congr_left fun _ => (hdone tokenId).symm

private theorem TokenRow.isRevocable_iff {t : TokenRow} {tokenId : UInt64} (hid : t.id ≤ maxRowid) :
    t.isRevocable tokenId = true ↔ tokenId.toNat = t.id ∧ t.revokedAt = none := by
  have hint : (t.id : Int) = tokenId.toInt64.toInt ↔ tokenId.toNat = t.id := by
    have hlt := tokenId.toNat_lt
    rw [Casts.toInt_toInt64]
    unfold maxRowid at hid
    split <;> omega
  rw [TokenRow.isRevocable, Bool.and_eq_true, decide_eq_true_eq, hint, Option.isNone_iff_eq_none]

private theorem TokenRow.revoked_iff {t : TokenRow} (h : t.revokedAt ≠ some 0) :
    t.revoked = true ↔ t.revokedAt ≠ none := by
  cases hat : t.revokedAt with
  | none => simp [revoked, hat]
  | some time =>
    have htime : time ≠ 0 := fun hzero => h (by rw [hat, hzero])
    simp [revoked, hat, htime]

private theorem SystemClock.ne_zero (h : SystemClock now) : now ≠ 0 := by
  rintro rfl
  exact absurd h.1 (by decide)

/-- A revocation marks the row with the id, unless it is marked already. -/
theorem TokenRow.Records.revoke {users : List UserRow} {t : TokenRow} {g : Grant}
    (h : t.Records sha done users g) (hnow : SystemClock now) (hid : t.id ≤ maxRowid)
    (tokenId : UInt64) :
    (if t.isRevocable tokenId = true then { t with revokedAt := some now } else t).Records sha
      (done ++ [.revoked tokenId]) users g := by
  have hnew : (∃ id : UInt64, .revoked id ∈ done ++ [.revoked tokenId] ∧ id.toNat = g.id) ↔
      t.revoked = true ∨ tokenId.toNat = t.id := by
    rw [h.revoked, h.id]
    simp only [List.mem_append, List.mem_singleton, AuthEffect.revoked.injEq, or_and_right,
      exists_or, exists_eq_left]
  have hrevocable : t.isRevocable tokenId = true ↔ _ := TokenRow.isRevocable_iff hid
  have hmarked := TokenRow.revoked_iff h.notZero
  by_cases hrow : t.isRevocable tokenId = true
  · rw [if_pos hrow]
    refine { h with revoked := ?_, notZero := fun hzero => hnow.ne_zero (Option.some.inj hzero) }
    rw [hnew]
    refine iff_of_true ?_ (.inr (hrevocable.mp hrow).1)
    simpa [TokenRow.revoked] using hnow.ne_zero
  · rw [if_neg hrow]
    refine { h with revoked := ?_ }
    rw [hnew, or_iff_left_of_imp]
    intro hid
    rw [hmarked]
    exact fun hnone => hrow (hrevocable.mpr ⟨hid, hnone⟩)

namespace AuthHistory.Recorded

theorem userAdd {role : Role} (h : (AuthHistory.mk done db).Recorded sha)
    (hadd : db.userAdd now username role = .ok db') :
    (AuthHistory.mk (done ++ [.added username role]) db').Recorded sha := by
  obtain ⟨rfl, hnew⟩ := AuthDb.userAdd_ok hadd
  have hfresh : .disabled username ∉ done := fun hmem => hnew (h.disabled username hmem)
  refine ⟨?_, ?_, ?_, ?_, ?_, h.hashes, h.tokensBelow, h.seqBelow, ?_, ?_⟩
  · rw [added, List.filterMap_append]
    refine List.rel_append (h.users.imp fun u _ hu => hu.mono (by simp)) (.cons ?_ .nil)
    exact ⟨rfl, rfl, by simp [hfresh]⟩
  · rw [issued, List.filterMap_append]
    change List.Forall₂ _ _ (issued ⟨done, db⟩ ++ [])
    rw [List.append_nil]
    refine h.tokens.imp fun t _ ht => ht.mono (fun u hu => ?_) (by simp)
    exact ⟨u, List.mem_append_left _ hu, rfl, rfl⟩
  · exact Table.nodup_append h.userNames hnew
  · refine Table.nodup_append h.userIds fun hmem => ?_
    obtain ⟨u, hu, hid⟩ := List.mem_map.mp hmem
    have hbelow := h.usersBelow u hu
    dsimp only at hid hbelow
    omega
  · intro u hu
    rcases List.mem_append.mp hu with hu | hu
    · exact (h.usersBelow u hu).trans (Nat.le_succ _)
    · rw [List.mem_singleton.mp hu]
  · intro name hname
    rw [List.map_append]
    exact List.mem_append_left _ (h.disabled name (by simpa using hname))
  · exact fun tokenId hrevoked => h.revoked tokenId (by simpa using hrevoked)

theorem userDisable (h : (AuthHistory.mk done db).Recorded sha)
    (hdisable : db.userDisable username = .ok db') :
    (AuthHistory.mk (done ++ [.disabled username]) db').Recorded sha := by
  have hknown : username ∈ db.user.map (·.username) := by
    unfold AuthDb.userDisable at hdisable
    split at hdisable
    · rename_i hany
      obtain ⟨u, hu, hname⟩ := List.any_eq_true.mp hany
      exact List.mem_map.mpr ⟨u, hu, beq_iff_eq.mp hname⟩
    · cases hdisable
  obtain rfl := AuthDb.userDisable_ok hdisable
  have hmap {κ : Type} (key : UserRow → κ)
      (hkey : ∀ u : UserRow, key { u with enabled := false } = key u) :
      (Table.update (·.username == username) (fun u : UserRow => { u with enabled := false })
        db.user).map key = db.user.map key := Table.map_update key hkey _
  refine ⟨?_, ?_, ?_, ?_, ?_, h.hashes, h.tokensBelow, h.seqBelow, ?_, ?_⟩
  · rw [added, List.filterMap_append]
    change List.Forall₂ _ _ (added ⟨done, db⟩ ++ [])
    rw [List.append_nil]
    refine List.forall₂_map_left_iff.mpr (h.users.imp fun u added hu => ?_)
    by_cases hname : u.username = username
    · rw [if_pos (beq_iff_eq.mpr hname)]
      exact ⟨hu.username, hu.role, by simp [← hu.username, hname]⟩
    · rw [if_neg (by simpa using hname)]
      refine ⟨hu.username, hu.role, ?_⟩
      rw [hu.enabled, ← hu.username]
      simp [hname]
  · rw [issued, List.filterMap_append]
    change List.Forall₂ _ _ (issued ⟨done, db⟩ ++ [])
    rw [List.append_nil]
    refine h.tokens.imp fun t _ ht => ht.mono (fun u hu => ?_) (by simp)
    refine ⟨_, Table.mem_update.mpr ⟨u, hu, rfl⟩, ?_, ?_⟩ <;> split <;> rfl
  · dsimp only
    rw [hmap _ fun _ => rfl]
    exact h.userNames
  · dsimp only
    rw [hmap _ fun _ => rfl]
    exact h.userIds
  · intro u hu
    obtain ⟨v, hv, rfl⟩ := Table.mem_update.mp hu
    split <;> exact h.usersBelow v hv
  · intro name hname
    dsimp only
    rw [hmap _ fun _ => rfl]
    rcases List.mem_append.mp hname with hname | hname
    · exact h.disabled name hname
    · cases List.mem_singleton.mp hname
      exact hknown
  · exact fun tokenId hrevoked => h.revoked tokenId (by simpa using hrevoked)

theorem tokenCreate {random token : Bytes} {ttlHours : UInt32}
    (h : (AuthHistory.mk done db).Recorded sha) (hnow : SystemClock now)
    (hcreate : db.tokenCreate sha now random username ttlHours = .ok (token, db')) :
    (AuthHistory.mk (done ++ [.issued ⟨token, db'.tokenSeq, username, now, ttlHours⟩]) db').Recorded
      sha := by
  obtain ⟨htoken, u, hu, hname, -, hseq, rfl, hnew⟩ := AuthDb.tokenCreate_ok hcreate
  refine ⟨?_, ?_, h.userNames, h.userIds, h.usersBelow, ?_, ?_, Nat.succ_le_of_lt hseq, ?_, ?_⟩
  · rw [added, List.filterMap_append]
    change List.Forall₂ _ _ (added ⟨done, db⟩ ++ [])
    rw [List.append_nil]
    exact h.users.imp fun u _ hu => hu.mono (by simp)
  · rw [issued, List.filterMap_append]
    refine List.rel_append (h.tokens.imp fun t _ ht =>
      ht.mono (fun u hu => ⟨u, hu, rfl, rfl⟩) (by simp)) (.cons ?_ .nil)
    -- An id that has been revoked is one that had been given out before.
    have hfresh : ∀ tokenId : UInt64, .revoked tokenId ∈ done → tokenId.toNat ≠ db.tokenSeq + 1 :=
      fun tokenId hrevoked => ne_of_lt (Nat.lt_succ_of_le (h.revoked tokenId hrevoked))
    refine ⟨htoken ▸ List.append_ne_nil_of_left_ne_nil (by decide) _, rfl, rfl, rfl, hnow,
      ⟨u, hu, rfl, hname⟩, ?_, nofun⟩
    simpa [TokenRow.revoked] using hfresh
  · exact Table.nodup_append h.hashes hnew
  · intro t ht
    rcases List.mem_append.mp ht with ht | ht
    · exact (h.tokensBelow t ht).trans (Nat.le_succ _)
    · rw [List.mem_singleton.mp ht]
  · exact fun name hname => h.disabled name (by simpa using hname)
  · exact fun tokenId hrevoked => (h.revoked tokenId (by simpa using hrevoked)).trans
      (Nat.le_succ _)

theorem tokenRevoke {tokenId : UInt64} (h : (AuthHistory.mk done db).Recorded sha)
    (hnow : SystemClock now) (hrevoke : db.tokenRevoke now tokenId = .ok db') :
    (AuthHistory.mk (done ++ [.revoked tokenId]) db').Recorded sha := by
  have hbelow : ∀ t ∈ db.token, t.id ≤ maxRowid := fun t ht => (h.tokensBelow t ht).trans h.seqBelow
  have hknown : tokenId.toNat ≤ db.tokenSeq := by
    unfold AuthDb.tokenRevoke at hrevoke
    split at hrevoke
    · rename_i hany
      obtain ⟨t, ht, hrow⟩ := List.any_eq_true.mp hany
      rw [((TokenRow.isRevocable_iff (hbelow t ht)).mp hrow).1]
      exact h.tokensBelow t ht
    · cases hrevoke
  obtain rfl := AuthDb.tokenRevoke_ok hrevoke
  refine ⟨?_, ?_, h.userNames, h.userIds, h.usersBelow, ?_, ?_, h.seqBelow, ?_, ?_⟩
  · rw [added, List.filterMap_append]
    change List.Forall₂ _ _ (added ⟨done, db⟩ ++ [])
    rw [List.append_nil]
    exact h.users.imp fun u _ hu => hu.mono (by simp)
  · rw [issued, List.filterMap_append]
    change List.Forall₂ _ _ (issued ⟨done, db⟩ ++ [])
    rw [List.append_nil]
    refine List.forall₂_map_left_iff.mpr
      (((List.forall₂_and_left (p := (·.id ≤ maxRowid)) _ _).mpr ⟨hbelow, h.tokens⟩).imp ?_)
    rintro t g ⟨hid, ht⟩
    exact ht.revoke hnow hid tokenId
  · rw [AuthDb.UniqueHashes,
      Table.map_update (f := fun t : TokenRow => { t with revokedAt := some now }) _ (fun _ => rfl)]
    exact h.hashes
  · intro t ht
    obtain ⟨v, hv, rfl⟩ := Table.mem_update.mp ht
    split <;> exact h.tokensBelow v hv
  · exact fun name hname => h.disabled name (by simpa using hname)
  · intro id hrevoked
    rcases List.mem_append.mp hrevoked with hrevoked | hrevoked
    · exact h.revoked id hrevoked
    · cases List.mem_singleton.mp hrevoked
      exact hknown

private theorem of_map_ok {α β : Type} {f : α → β} {r : Except Error α} {b : β}
    (h : r.map f = .ok b) :
    ∃ a, r = .ok a ∧ f a = b := by
  cases r with
  | error e => cases h
  | ok a => exact ⟨a, rfl, Except.ok.inj h⟩

private theorem record {h : AuthHistory} {request : AuthRequest} (hrec : h.Recorded sha)
    (hnow : SystemClock request.now) : (h.record sha request).Recorded sha := by
  obtain ⟨done, db⟩ := h
  unfold AuthHistory.record
  split
  · rename_i effect db' hperform
    unfold AuthDb.perform at hperform
    split at hperform
    · obtain ⟨db₁, hadd, heq⟩ := of_map_ok hperform
      cases heq
      exact hrec.userAdd hadd
    · obtain ⟨db₁, hdisable, heq⟩ := of_map_ok hperform
      cases heq
      exact hrec.userDisable hdisable
    · obtain ⟨⟨token, db₁⟩, hcreate, heq⟩ := of_map_ok hperform
      cases heq
      exact hrec.tokenCreate hnow hcreate
    · obtain ⟨db₁, hrevoke, heq⟩ := of_map_ok hperform
      cases heq
      exact hrec.tokenRevoke hnow hrevoke
  · exact hrec

end AuthHistory.Recorded

private theorem authHistory_recorded (sha : Sha256) {requests : List AuthRequest}
    (hclock : ∀ request ∈ requests, SystemClock request.now) :
    (authHistory sha requests).Recorded sha :=
  List.foldlRecOn requests _ (AuthHistory.recorded_empty sha) fun _ hrec request hmem =>
    hrec.record (hclock request hmem)

end

section

variable {sha : Sha256} {db : AuthDb} {now : Int64} {s : Bytes} {ok : AuthOk}

private theorem AuthDb.owner?_eq (hids : (db.user.map (·.id)).Nodup) {t : TokenRow} {u : UserRow}
    (hu : u ∈ db.user) (hid : u.id = t.userId) : db.owner? t = some u := by
  cases hfound : db.owner? t with
  | none =>
    have hnone := List.find?_eq_none.mp hfound u hu
    simp [hid] at hnone
  | some v =>
    have hv : v.id = t.userId := by simpa using List.find?_some hfound
    rw [Table.eq_of_key hids (List.mem_of_find?_eq_some hfound) hu (hv.trans hid.symm)]

private theorem AuthDb.verify_eq_ok_iff (hunique : db.UniqueHashes) (hs : s ≠ []) :
    db.verify sha now s = .ok ok ↔ ∃ t ∈ db.token, ∃ u, t.tokenHash = sha.hex s ∧
      db.owner? t = some u ∧ t.revoked = false ∧ (t.expiresAt = 0 ∨ now < t.expiresAt) ∧
      u.enabled = true ∧ ok = ⟨u.username, u.role.toU8⟩ := by
  rw [verify, if_neg hs]
  constructor
  · intro h
    split at h
    · cases h
    rename_i t u hfound
    obtain ⟨ht, hhash, hu⟩ := tokenOwner?_some hfound
    split at h
    · cases h
    rename_i hrevoked
    split at h
    · cases h
    rename_i hexpired
    split at h
    · cases h
    rename_i henabled
    cases h
    refine ⟨t, ht, u, hhash, hu, by simpa using hrevoked, ?_, by simpa using henabled, rfl⟩
    rcases not_and_or.mp hexpired with hzero | hlater
    · exact .inl (not_not.mp hzero)
    · exact .inr (Int64.not_le.mp hlater)
  · rintro ⟨t, ht, u, hhash, hu, hrevoked, hexpires, henabled, rfl⟩
    have hvalid : ¬ (t.expiresAt ≠ 0 ∧ t.expiresAt ≤ now) := fun ⟨hne, hle⟩ =>
      hexpires.elim hne fun hlt => Int64.not_le.mpr hlt hle
    rw [tokenOwner?_eq hunique ht hhash hu]
    dsimp only
    rw [if_neg (by simp [hrevoked]), if_neg hvalid, if_neg (by simp [henabled])]

private theorem Grant.expiresAt_toInt {g : Grant} (hclock : SystemClock g.createdAt)
    (httl : g.ttlHours ≠ 0) :
    g.expiresAt.toInt = g.createdAt.toInt + 3600 * g.ttlHours.toNat := by
  obtain ⟨hlo, hhi⟩ := hclock
  have hlt := g.ttlHours.toNat_lt
  have hhours : g.ttlHours.toUInt64.toInt64.toInt = g.ttlHours.toNat := by
    rw [Casts.toInt_toInt64, UInt32.toNat_toUInt64, if_pos (by omega)]
  have hseconds : (g.ttlHours.toUInt64.toInt64 * 3600).toInt = 3600 * g.ttlHours.toNat := by
    rw [Int64.toInt_mul, hhours, show (3600 : Int64).toInt = 3600 from rfl, mul_comm]
    exact Int.bmod_eq_of_le (by omega) (by omega)
  rw [expiresAt, if_neg httl, Int64.toInt_add, hseconds]
  exact Int.bmod_eq_of_le (by omega) (by omega)

private theorem Grant.notExpired_iff {g : Grant} (hclock : SystemClock g.createdAt) :
    (g.expiresAt = 0 ∨ now < g.expiresAt) ↔
      (g.ttlHours = 0 ∨ now.toInt < g.createdAt.toInt + 3600 * g.ttlHours.toNat) := by
  by_cases httl : g.ttlHours = 0
  · simp [expiresAt, httl]
  have hexpires := expiresAt_toInt hclock httl
  have hne : g.expiresAt ≠ 0 := by
    intro hzero
    obtain ⟨hlo, -⟩ := hclock
    rw [hzero, show (0 : Int64).toInt = 0 from rfl] at hexpires
    omega
  rw [or_iff_right hne, or_iff_right httl, Int64.lt_iff_toInt_lt, hexpires]

end

section

variable {sha : Sha256} {h : AuthHistory} {now : Int64} {s : Bytes} {ok : AuthOk}

theorem AuthHistory.Recorded.owner (hrec : h.Recorded sha) {t : TokenRow} {g : Grant}
    (ht : t.Records sha h.done h.db.user g) : ∃ u ∈ h.db.user, h.db.owner? t = some u ∧
      u.username = g.username ∧ .added g.username u.role ∈ h.done ∧
      (u.enabled = true ↔ .disabled g.username ∉ h.done) := by
  obtain ⟨u, hu, hid, hname⟩ := ht.owner
  obtain ⟨⟨username, role⟩, hadded, hrow⟩ := Table.exists_of_mem_left hrec.users hu
  obtain rfl : username = g.username := hrow.username.symm.trans hname
  refine ⟨u, hu, AuthDb.owner?_eq hrec.userIds hu hid, hname, ?_, hrow.enabled⟩
  rw [hrow.role]
  exact AuthHistory.mem_added.mp hadded

private theorem AuthHistory.Recorded.role_unique (hrec : h.Recorded sha) {username : Bytes}
    {role role' : Role} (hrole : .added username role ∈ h.done)
    (hrole' : .added username role' ∈ h.done) :
    role' = role := by
  obtain ⟨u, hu, hrow⟩ := Table.exists_of_mem_right hrec.users (AuthHistory.mem_added.mpr hrole)
  obtain ⟨v, hv, hrow'⟩ := Table.exists_of_mem_right hrec.users (AuthHistory.mem_added.mpr hrole')
  obtain rfl : v = u := Table.eq_of_key hrec.userNames hv hu
    (hrow'.username.trans hrow.username.symm)
  exact hrow'.role.symm.trans hrow.role

private theorem AuthHistory.Recorded.verify_live (hrec : h.Recorded sha) {g : Grant}
    (hlive : g.Live h.done now) : ∃ role, .added g.username role ∈ h.done ∧
      h.db.verify sha now g.token = .ok ⟨g.username, role.toU8⟩ := by
  obtain ⟨t, ht, hrow⟩ := Table.exists_of_mem_right hrec.tokens
    (AuthHistory.mem_issued.mpr hlive.issued)
  obtain ⟨u, -, howner, hname, hadded, henabled⟩ := hrec.owner hrow
  refine ⟨u.role, hadded, (AuthDb.verify_eq_ok_iff hrec.hashes hrow.nonempty).mpr
    ⟨t, ht, u, hrow.hash, howner, ?_, ?_, henabled.mpr hlive.notDisabled, by rw [hname]⟩⟩
  · rw [← Bool.not_eq_true, hrow.revoked]
    rintro ⟨tokenId, hrevoked, hid⟩
    exact hlive.notRevoked tokenId hrevoked hid
  · rw [hrow.expires]
    exact (Grant.notExpired_iff hrow.clock).mpr hlive.notExpired

/-- What is verified is a live token, unless it shares its digest with another. -/
private theorem AuthHistory.Recorded.live_of_verify (hrec : h.Recorded sha)
    (hsha : sha.NoCollision (insert s {token | ∃ g, .issued g ∈ h.done ∧ g.token = token}))
    (hverify : h.db.verify sha now s = .ok ok) :
    ∃ g : Grant, g.token = s ∧ g.Live h.done now := by
  have hs : s ≠ [] := by
    rintro rfl
    cases hverify
  obtain ⟨t, ht, u, hhash, howner, hrevoked, hexpires, henabled, -⟩ :=
    (AuthDb.verify_eq_ok_iff hrec.hashes hs).mp hverify
  obtain ⟨g, hg, hrow⟩ := Table.exists_of_mem_left hrec.tokens ht
  have hissued := AuthHistory.mem_issued.mp hg
  obtain ⟨v, -, hv, -, -, hoff⟩ := hrec.owner hrow
  obtain rfl : v = u := Option.some.inj (hv.symm.trans howner)
  refine ⟨g, hsha.eq_of_hex (Set.mem_insert_of_mem _ ⟨g, hissued, rfl⟩) (Set.mem_insert _ _)
    (hrow.hash.symm.trans hhash), hissued, ?_, ?_, hoff.mp henabled⟩
  · intro tokenId hdone hid
    rw [hrow.revoked.mpr ⟨tokenId, hdone, hid⟩] at hrevoked
    cases hrevoked
  · rw [hrow.expires] at hexpires
    exact (Grant.notExpired_iff hrow.clock).mp hexpires

end

/-- After every sequence of calls `verify` accepts the live tokens and nothing else, and returns the
user of the token with the one role it has been added with. -/
theorem verify_accepts_live (sha : Sha256) (requests : List AuthRequest) (now : Int64) (s : Bytes)
    (hclock : ∀ request ∈ requests, SystemClock request.now)
    (hsha : sha.NoCollision
      (insert s {token | ∃ g, .issued g ∈ (authHistory sha requests).done ∧ g.token = token})) :
    ((∃ ok, (authHistory sha requests).db.verify sha now s = .ok ok) ↔
      ∃ g : Grant, g.token = s ∧ g.Live (authHistory sha requests).done now) ∧
    ∀ g : Grant, g.token = s → g.Live (authHistory sha requests).done now →
      ∃ role, .added g.username role ∈ (authHistory sha requests).done ∧
        (∀ role', .added g.username role' ∈ (authHistory sha requests).done → role' = role) ∧
        (authHistory sha requests).db.verify sha now s = .ok ⟨g.username, role.toU8⟩ := by
  have hrec := authHistory_recorded sha hclock
  refine ⟨⟨fun ⟨ok, hverify⟩ => hrec.live_of_verify hsha hverify, ?_⟩, ?_⟩
  · rintro ⟨g, rfl, hlive⟩
    obtain ⟨role, -, hverify⟩ := hrec.verify_live hlive
    exact ⟨_, hverify⟩
  · rintro g rfl hlive
    obtain ⟨role, hadded, hverify⟩ := hrec.verify_live hlive
    exact ⟨role, hadded, fun role' hadded' => hrec.role_unique hadded hadded', hverify⟩

/-- A function with the digests of SHA-256 on the tokens of two random numbers. -/
def tokenSha : Sha256 where
  digest data :=
    if data = tokenText (List.replicate 32 7) then
      [0x1a, 0xa0, 0x90, 0xdb, 0x10, 0x6e, 0x9c, 0xcf, 0x50, 0x45, 0xb5, 0xde,
        0x31, 0xa2, 0x12, 0x77, 0x2c, 0x9c, 0x48, 0xa5, 0xff, 0xa6, 0x1c, 0x58,
        0x79, 0x65, 0x88, 0xe3, 0x2c, 0x92, 0x06, 0x11]
    else if data = tokenText (List.replicate 32 8) then
      [0x09, 0xa9, 0x0b, 0x4d, 0xab, 0xcc, 0x5c, 0x07, 0xa9, 0x73, 0x03, 0x13,
        0xab, 0xd9, 0x41, 0xbd, 0x54, 0x9f, 0x41, 0x99, 0xc6, 0x39, 0x79, 0xbb,
        0xe5, 0xe5, 0xfa, 0x77, 0x0f, 0x15, 0x27, 0xa4]
    else List.replicate 32 0
  length_digest data := by
    split
    · rfl
    · split <;> rfl

/-- The token that Alice gets for an hour. -/
def sampleGrant : Grant := ⟨tokenText (List.replicate 32 7), 1, ascii "alice", 2, 1⟩

/-- The token that she gets for ever. -/
def sampleForever : Grant := ⟨tokenText (List.replicate 32 8), 2, ascii "alice", 2, 0⟩

/-- Alice gets both tokens, and the second one is revoked. -/
def sampleCalls : List AuthRequest :=
  [⟨.userAdd (ascii "alice") .publisher, 1, []⟩,
    ⟨.tokenCreate (ascii "alice") 1, 2, List.replicate 32 7⟩,
    ⟨.tokenCreate (ascii "alice") 0, 2, List.replicate 32 8⟩,
    ⟨.tokenRevoke 2, 3, []⟩]

private theorem sampleCalls_done : (authHistory tokenSha sampleCalls).done =
    [.added (ascii "alice") .publisher, .issued sampleGrant, .issued sampleForever,
      .revoked 2] := by
  decide +kernel

/-- An hour after its creation the first token is still accepted for one second. -/
theorem verify_accepts_live_sample : ∃ ok, (authHistory tokenSha sampleCalls).db.verify tokenSha
    3601 (tokenText (List.replicate 32 7)) = .ok ok := by
  have hdigests : tokenSha.digest sampleGrant.token ≠ tokenSha.digest sampleForever.token := by
    decide +kernel
  refine (verify_accepts_live tokenSha sampleCalls 3601 _ (by decide) ?_).1.mpr
    ⟨sampleGrant, rfl, ?_⟩
  · rw [sampleCalls_done]
    have hissued : ∀ token,
        (∃ g, AuthEffect.issued g ∈ [AuthEffect.added (ascii "alice") .publisher,
          .issued sampleGrant, .issued sampleForever, .revoked 2] ∧ g.token = token) →
        token = sampleGrant.token ∨ token = sampleForever.token := by
      rintro token ⟨g, hg, rfl⟩
      simp only [List.mem_cons, List.not_mem_nil, or_false, reduceCtorEq, false_or,
        AuthEffect.issued.injEq] at hg
      exact hg.imp (congrArg _) (congrArg _)
    have hinvolved : ∀ token ∈ insert (tokenText (List.replicate 32 7)) {token | ∃ g,
        AuthEffect.issued g ∈ [AuthEffect.added (ascii "alice") .publisher, .issued sampleGrant,
          .issued sampleForever, .revoked 2] ∧ g.token = token},
        token = sampleGrant.token ∨ token = sampleForever.token :=
      fun token htoken => htoken.elim .inl (hissued token)
    intro a ha b hb hab
    rcases hinvolved a ha with rfl | rfl <;> rcases hinvolved b hb with rfl | rfl
    · rfl
    · exact absurd hab hdigests
    · exact absurd hab.symm hdigests
    · rfl
  · rw [sampleCalls_done]
    refine ⟨by decide, fun tokenId hrevoked => ?_, by decide, by decide⟩
    simp only [List.mem_cons, List.not_mem_nil, or_false, reduceCtorEq, false_or,
      AuthEffect.revoked.injEq] at hrevoked
    rw [hrevoked]
    decide

end ForgeRelay
