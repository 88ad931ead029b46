import ForgeRelay.Service.Revocation
import ForgeRelay.Storage.Durability
import ForgeRelay.Storage.Steps

/-!
# What identifiers are accepted

The validators take C strings, and what is stored is the whole string. So an accepted identifier
follows its rule up to its first NUL byte, and as a whole if and only if it has none.
-/

namespace ForgeRelay

open Program Prog

/-- An identifier has allowed characters only, at most so many, and is not a dot segment. -/
structure IdentRule (allowed : Bytes) (max : Nat) (s : Bytes) : Prop where
  nonempty : 1 ≤ s.length
  short : s.length ≤ max
  chars : ∀ c ∈ s, c ∈ allowed
  not_dot : s ≠ ascii "."
  not_dots : s ≠ ascii ".."

/-- `[A-Za-z0-9._-]`. -/
def componentChars : Bytes :=
  ascii "ABCDEFGHIJKLMNOPQRSTUVWXYZabcdefghijklmnopqrstuvwxyz0123456789._-"

abbrev ComponentRule : Bytes → Prop := IdentRule componentChars 64

abbrev VersionRule : Bytes → Prop := IdentRule (componentChars ++ ascii "+") 96

private theorem mem_componentChars {c : UInt8} : c ∈ componentChars ↔
    c.toNat ∈ List.range' 65 26 ++ List.range' 97 26 ++ List.range' 48 10 ++ [46, 95, 45] := by
  have hcodes : componentChars.map UInt8.toNat =
      List.range' 65 26 ++ List.range' 97 26 ++ List.range' 48 10 ++ [46, 95, 45] := by
    decide +kernel
  rw [← hcodes, List.mem_map_of_injective fun _ _ => UInt8.toNat_inj.mp]

private theorem isIdentComponentChar_iff (c : UInt8) :
    isIdentComponentChar c = true ↔ c ∈ componentChars := by
  rw [mem_componentChars]
  simp only [isIdentComponentChar, Bool.or_eq_true, Bool.and_eq_true, decide_eq_true_eq,
    beq_iff_eq, UInt8.le_iff_toNat_le, ← UInt8.toNat_inj, List.mem_append, List.mem_range'_1,
    List.mem_cons, List.not_mem_nil, or_false, UInt8.reduceToNat]
  omega

private theorem isVersionChar_iff (c : UInt8) :
    (isIdentComponentChar c || isVersionExtraChar c) = true ↔ c ∈ componentChars ++ ascii "+" := by
  have hplus : ascii "+" = [43] := by decide
  have hunderscore : c = 95 → c ∈ componentChars := by
    rintro rfl
    exact mem_componentChars.mpr (by decide)
  rw [Bool.or_eq_true, isIdentComponentChar_iff, List.mem_append, hplus, List.mem_singleton,
    isVersionExtraChar, Bool.or_eq_true, beq_iff_eq, beq_iff_eq]
  tauto

private theorem frIdentValidComponent_iff {s : Bytes} :
    frIdentValidComponent s = true ↔ ComponentRule (cString s) := by
  simp only [frIdentValidComponent, validDotSegmentFree, Bool.and_eq_true, decide_eq_true_eq,
    List.all_eq_true, isIdentComponentChar_iff, bne_iff_ne, frIdentComponentMax]
  exact ⟨fun ⟨⟨⟨h₁, h₂⟩, h₃⟩, h₄, h₅⟩ => ⟨h₁, of_decide_eq_true h₂, h₃, h₄, h₅⟩,
    fun ⟨h₁, h₂, h₃, h₄, h₅⟩ => ⟨⟨⟨h₁, decide_eq_true h₂⟩, h₃⟩, h₄, h₅⟩⟩

private theorem frIdentValidVersion_iff {s : Bytes} :
    frIdentValidVersion s = true ↔ VersionRule (cString s) := by
  simp only [frIdentValidVersion, validDotSegmentFree, Bool.and_eq_true, decide_eq_true_eq,
    List.all_eq_true, isVersionChar_iff, bne_iff_ne, frIdentVersionMax]
  exact ⟨fun ⟨⟨⟨h₁, h₂⟩, h₃⟩, h₄, h₅⟩ => ⟨h₁, of_decide_eq_true h₂, h₃, h₄, h₅⟩,
    fun ⟨h₁, h₂, h₃, h₄, h₅⟩ => ⟨⟨⟨h₁, decide_eq_true h₂⟩, h₃⟩, h₄, h₅⟩⟩

/-- What follows its rule up to the first NUL byte follows it as a whole if there is none. -/
private theorem IdentRule.whole_iff {allowed : Bytes} {max : Nat} {s : Bytes} (hnul : 0 ∉ allowed)
    (h : IdentRule allowed max (cString s)) : IdentRule allowed max s ↔ 0 ∉ s := by
  constructor
  · exact fun hs h0 => hnul (hs.chars 0 h0)
  · intro h0
    rwa [cString_eq_self h0] at h

private theorem component_whole_iff {s : Bytes} (h : frIdentValidComponent s = true) :
    ComponentRule s ↔ 0 ∉ s :=
  (frIdentValidComponent_iff.mp h).whole_iff (by decide +kernel)

private theorem version_whole_iff {s : Bytes} (h : frIdentValidVersion s = true) :
    VersionRule s ↔ 0 ∉ s :=
  (frIdentValidVersion_iff.mp h).whole_iff (by decide +kernel)

/-- The three identifiers of an artifact follow their rules. -/
structure RefRule (ref : Bytes × Bytes × Bytes) : Prop where
  ns : ComponentRule ref.1
  name : ComponentRule ref.2.1
  version : VersionRule ref.2.2

/-- What `create_session` checks of them. -/
def RefAccepted (ref : Bytes × Bytes × Bytes) : Prop :=
  frIdentValidComponent ref.1 = true ∧ frIdentValidComponent ref.2.1 = true ∧
    frIdentValidVersion ref.2.2 = true

/-- None of them has a NUL byte. -/
def RefNulFree (ref : Bytes × Bytes × Bytes) : Prop := 0 ∉ ref.1 ∧ 0 ∉ ref.2.1 ∧ 0 ∉ ref.2.2

/-- Each of them up to its first NUL byte. -/
def cRef (ref : Bytes × Bytes × Bytes) : Bytes × Bytes × Bytes :=
  (cString ref.1, cString ref.2.1, cString ref.2.2)

private theorem refAccepted_iff {ref : Bytes × Bytes × Bytes} :
    RefAccepted ref ↔ RefRule (cRef ref) := by
  rw [RefAccepted, frIdentValidComponent_iff, frIdentValidComponent_iff, frIdentValidVersion_iff]
  exact ⟨fun ⟨h₁, h₂, h₃⟩ => ⟨h₁, h₂, h₃⟩, fun ⟨h₁, h₂, h₃⟩ => ⟨h₁, h₂, h₃⟩⟩

private theorem RefAccepted.whole_iff {ref : Bytes × Bytes × Bytes} (h : RefAccepted ref) :
    RefRule ref ↔ RefNulFree ref := by
  rw [RefNulFree, ← component_whole_iff h.1, ← component_whole_iff h.2.1,
    ← version_whole_iff h.2.2]
  exact ⟨fun ⟨h₁, h₂, h₃⟩ => ⟨h₁, h₂, h₃⟩, fun ⟨h₁, h₂, h₃⟩ => ⟨h₁, h₂, h₃⟩⟩

private theorem createSession_accepts {cfg : StorageConfig} {env : CallEnv}
    {ns name version : Bytes}
    {size : UInt64} {digest owner : Bytes} {s s' : Store} {session : SessionInfo}
    (h : (createSession cfg env ns name version size digest owner).run s = (.ok session, s')) :
    RefAccepted (ns, name, version) := by
  by_contra hnot
  unfold RefAccepted at hnot
  rw [createSession, if_pos hnot] at h
  cases h

private theorem createSession_accepted {ns name version : Bytes}
    (h : RefAccepted (ns, name, version)) :
    ∃ session s', (createSession sampleConfig (sampleEnv 0) ns name version 1
      (sampleSha.hex (ascii "a")) (ascii "alice")).run .empty = (.ok session, s') := by
  unfold RefAccepted at h
  rw [createSession, if_neg (not_not.mpr h)]
  exact ⟨_, _, rfl⟩

private theorem userAdd_accepts {auth auth' : AuthDb} {now : Int64} {username : Bytes} {role : Role}
    (h : auth.userAdd now username role = .ok auth') : frIdentValidComponent username = true := by
  unfold AuthDb.userAdd at h
  split at h
  · cases h
  · rename_i hvalid
    simpa using (not_or.mp hvalid).2

private theorem userAdd_accepted {username : Bytes} (h : frIdentValidComponent username = true) :
    ∃ auth', AuthDb.empty.userAdd 0 username .reader = .ok auth' := by
  have hne : username ≠ [] := by
    rintro rfl
    cases h
  rw [AuthDb.userAdd, if_neg (by simp [hne, h])]
  exact ⟨_, rfl⟩

/-- The identifiers of a session. -/
def SessionInfo.ref (s : SessionInfo) : Bytes × Bytes × Bytes := (s.ns, s.name, s.version)

/-- The identifiers of sessions and artifacts in the tables. -/
def Db.refs (db : Db) : List (Bytes × Bytes × Bytes) :=
  db.uploadSession.map (·.ref) ++ db.artifact.map (·.ref)

/-- All of them have been accepted. -/
def acceptedRefs : Bound Store Error where
  inv s := ∀ ref ∈ s.db.refs, RefAccepted ref
  rel _ _ := True
  err _ := True
  refl _ := trivial
  trans _ _ := trivial

private theorem acceptedRefs_step {s s' : Store} (hs : acceptedRefs.inv s)
    (hrefs : ∀ ref ∈ s'.db.refs, ref ∈ s.db.refs ∨ RefAccepted ref) : acceptedRefs.Step s s' :=
  ⟨trivial, fun ref href => (hrefs ref href).elim (hs ref) id⟩

private theorem refs_setSessionState (db : Db) (cond : SessionInfo → Bool) (state : SessionState) :
    (db.setSessionState cond state).refs = db.refs := by
  have hsessions : (Table.update cond (fun s => { s with state := state }) db.uploadSession).map
      (·.ref) = db.uploadSession.map (·.ref) :=
    Table.map_update (f := fun s : SessionInfo => { s with state := state }) _ (fun _ => rfl) _
  exact congrArg (· ++ db.artifact.map (·.ref)) hsessions

private theorem acceptedRefs_newSessions (cfg : StorageConfig) :
    NewSessions cfg fun session => RefAccepted session.ref :=
  fun hns hname hversion => ⟨hns, hname, hversion⟩

private theorem acceptedRefs_allows (now : Int64) :
    Allows now acceptedRefs (fun session => RefAccepted session.ref) fun _ => True where
  fr _ _ _ := trivial
  reserve := trivial
  files hs hdb := acceptedRefs_step hs fun ref href => .inl (hdb ▸ href)
  insertChunk {s row} hs _ _ := acceptedRefs_step hs fun ref href => .inl (by
    unfold Db.insertChunkOrIgnore at href
    dsimp only at href
    split at href <;> exact href)
  reactivate hs := acceptedRefs_step hs fun _ => .inl
  markPending hs := acceptedRefs_step hs fun _ => .inl
  deleteChunk hs := acceptedRefs_step hs fun _ => .inl
  setSessionState hs _ := acceptedRefs_step hs fun ref href => .inl (by
    rwa [refs_setSessionState] at href)
  insertSession {s row db} hs hrow hdb := acceptedRefs_step hs fun ref href => by
    rw [Db.insertSession_ok hdb] at href
    simp only [Db.refs, List.map_append, List.map_cons, List.map_nil, List.mem_append,
      List.mem_singleton] at href ⊢
    rcases href with (href | rfl) | href
    · exact .inl (.inl href)
    · exact .inr hrow
    · exact .inl (.inr href)
  deleteParts hs := acceptedRefs_step hs fun _ => .inl
  insertPart hs _ _ hdb := acceptedRefs_step hs fun ref href => .inl (by
    rwa [Db.insertPart_ok hdb] at href)
  insertArtifact {session} hsession s id db hs hdb := acceptedRefs_step hs fun ref href => by
    rw [(Db.insertArtifact_ok hdb).2] at href
    simp only [Db.refs, List.map_append, List.map_cons, List.map_nil, List.mem_append,
      List.mem_singleton] at href ⊢
    rcases href with href | href | rfl
    · exact .inl (.inl href)
    · exact .inl (.inr href)
    · exact .inr hsession
  insertArtifactChunk hs _ hdb := acceptedRefs_step hs fun ref href => .inl (by
    rwa [Db.insertArtifactChunk_ok hdb] at href)
  removeArtifact {s id} hs := acceptedRefs_step hs fun ref href => .inl (by
    simp only [Db.refs, Db.deleteArtifact, List.mem_append, List.mem_map] at href ⊢
    exact href.imp_right fun ⟨a, ha, hr⟩ => ⟨a, (Table.mem_delete.mp ha).1, hr⟩)
  sessions hs row hrow := hs _ (List.mem_append_left _ (List.mem_map_of_mem hrow))
  parts _ _ _ := trivial
  dataLength _ _ _ := trivial

/-- The registries that its operations make. -/
inductive Registered (sha : Sha256) : AuthDb → Prop
  | empty : Registered sha .empty
  | userAdd {db db' : AuthDb} {now : Int64} {username : Bytes} {role : Role}
      (h : Registered sha db) (hadd : db.userAdd now username role = .ok db') : Registered sha db'
  | userDisable {db db' : AuthDb} {username : Bytes} (h : Registered sha db)
      (hdisable : db.userDisable username = .ok db') : Registered sha db'
  | tokenCreate {db db' : AuthDb} {now : Int64} {random username token : Bytes} {ttlHours : UInt32}
      (h : Registered sha db)
      (hcreate : db.tokenCreate sha now random username ttlHours = .ok (token, db')) :
      Registered sha db'
  | tokenRevoke {db db' : AuthDb} {now : Int64} {tokenId : UInt64} (h : Registered sha db)
      (hrevoke : db.tokenRevoke now tokenId = .ok db') : Registered sha db'
  | audit {db : AuthDb} {now : Int64} {actor action target result : Bytes}
      (h : Registered sha db) : Registered sha (db.audit now actor action target result)

theorem Registered.accepted {sha : Sha256} {auth : AuthDb} (h : Registered sha auth) :
    ∀ u ∈ auth.user, frIdentValidComponent u.username = true := by
  induction h with
  | empty => exact fun u hu => by cases hu
  | userAdd _ hadd ih =>
    obtain ⟨rfl, -⟩ := AuthDb.userAdd_ok hadd
    refine fun v hv => (List.mem_append.mp hv).elim (ih v) fun hv => ?_
    rw [List.mem_singleton.mp hv]
    exact userAdd_accepts hadd
  | userDisable _ hdisable ih =>
    intro v hv
    rw [AuthDb.userDisable_ok hdisable] at hv
    obtain ⟨u, hu, rfl⟩ := Table.mem_update.mp hv
    split <;> exact ih u hu
  | tokenCreate _ hcreate ih =>
    obtain ⟨-, u, -, -, -, -, rfl, -⟩ := AuthDb.tokenCreate_ok hcreate
    exact ih
  | tokenRevoke _ hrevoke ih =>
    rw [AuthDb.tokenRevoke_ok hrevoke]
    exact ih
  | audit _ ih => exact ih

/-- `create_session` and `user_add` accept only identifiers that follow their rules if and only if
there is no NUL byte, or the part before the first one is rejected; and after every run of storage
and of the registry, a stored identifier follows its rule if and only if it has no NUL byte. -/
theorem identifiers_whole_iff (ns name version username : Bytes) :
    ((∀ {cfg : StorageConfig} {env : CallEnv} {size : UInt64} {digest owner : Bytes}
        {s s' : Store} {session : SessionInfo},
      (createSession cfg env ns name version size digest owner).run s = (.ok session, s') →
        RefRule (ns, name, version)) ↔
      RefNulFree (ns, name, version) ∨ ¬ RefRule (cRef (ns, name, version))) ∧
    ((∀ {auth auth' : AuthDb} {now : Int64} {role : Role},
      auth.userAdd now username role = .ok auth' → ComponentRule username) ↔
      0 ∉ username ∨ ¬ ComponentRule (cString username)) ∧
    (∀ {sha : Sha256} {events : List Event} {sys : System},
      Trace.Run (System.Step sha anywhere) .initial events sys →
        ∀ ref ∈ sys.store.db.refs, RefRule ref ↔ RefNulFree ref) ∧
    ∀ {sha : Sha256} {auth : AuthDb}, Registered sha auth →
      ∀ u ∈ auth.user, ComponentRule u.username ↔ 0 ∉ u.username := by
  refine ⟨⟨fun h => ?_, fun h => ?_⟩, ⟨fun h => ?_, fun h => ?_⟩, fun hrun ref href => ?_,
    fun hauth u hu => ?_⟩
  · by_cases haccepted : RefAccepted (ns, name, version)
    · obtain ⟨session, s', hcreate⟩ := createSession_accepted haccepted
      exact .inl (haccepted.whole_iff.mp (h hcreate))
    · exact .inr fun hrule => haccepted (refAccepted_iff.mpr hrule)
  · intro cfg env size digest owner s s' session hcreate
    have haccepted := createSession_accepts hcreate
    exact haccepted.whole_iff.mpr
      (h.resolve_right fun hnot => hnot (refAccepted_iff.mp haccepted))
  · by_cases haccepted : frIdentValidComponent username = true
    · obtain ⟨auth', hadd⟩ := userAdd_accepted haccepted
      exact .inl ((component_whole_iff haccepted).mp (h hadd))
    · exact .inr fun hrule => haccepted (frIdentValidComponent_iff.mpr hrule)
  · intro auth auth' now role hadd
    have haccepted := userAdd_accepts hadd
    exact (component_whole_iff haccepted).mpr
      (h.resolve_right fun hnot => hnot (frIdentValidComponent_iff.mp haccepted))
  · have haccepted := System.run_inv hrun acceptedRefs_allows
      (fun _ => acceptedRefs_newSessions _) (fun _ => trivial) nofun
      (fun ref href => by cases href) ref href
    exact haccepted.whole_iff
  · exact component_whole_iff (hauth.accepted u hu)

/-- A CREATE_UPLOAD request whose namespace is the letter a, a NUL byte and a slash. -/
def nulRequest : CreateUploadReq where
  ref := ⟨[97, 0, 47], ascii "app", ascii "1.0"⟩
  expectedSize := 1
  expectedDigest := sampleSha.hex (ascii "a")

/-- The request is decoded as it was sent, and its namespace accepted. -/
theorem createUpload_accepts_nul : ¬ ∀ {frame : FrFrame} {req : CreateUploadReq}
    {cfg : StorageConfig} {env : CallEnv} {owner : Bytes} {s s' : Store} {session : SessionInfo},
    decodeFrame decodeCreateUploadReq frame = .ok req →
    (createSession cfg env req.ref.ns req.ref.name req.ref.version req.expectedSize
      req.expectedDigest owner).run s = (.ok session, s') →
    RefRule (req.ref.ns, req.ref.name, req.ref.version) := by
  intro hall
  have hdecode : decodeFrame decodeCreateUploadReq ⟨FrMsgType.createUpload.toByte, 0, 7,
      ((payloadOf (encodeCreateUploadReq nulRequest)).toOption).getD []⟩ = .ok nulRequest := by
    decide +kernel
  have haccepted : RefAccepted ([97, 0, 47], ascii "app", ascii "1.0") :=
    ⟨by decide +kernel, by decide +kernel, by decide +kernel⟩
  obtain ⟨session, s', hcreate⟩ := createSession_accepted haccepted
  have hslash : (47 : UInt8) ∈ componentChars := (hall hdecode hcreate).ns.chars 47 (by decide)
  exact absurd hslash (by decide +kernel)

end ForgeRelay
