import ForgeRelay.Lib.Within
import ForgeRelay.Storage.Machine

/-!
# What all steps of storage do

A bound on the steps of storage that admits its statements admits its operations. A session that
is published has been loaded from the table, and the length of a chunk in a manifest is that of a
part; and only the reserve of the manifest throws what is not an `fr::Error`.
-/

namespace ForgeRelay

open Program Prog

section

variable {B : Bound Store Error} {α : Type}

theorem ascii_length (text : String) : (ascii text).length = text.length := by
  rw [ascii, List.length_map, String.length_toList]

private theorem toString_length_le {n : Nat} (h : n < 2^64) : (toString n).length ≤ 20 := by
  change (Nat.repr n).length ≤ 20
  exact (Nat.length_repr_le_iff (by decide)).mpr (h.trans (by decide))

theorem within_stmt {V : α → Prop} {f : Db → Except Error (α × Db)}
    (hok : ∀ {s a db}, B.inv s → f s.db = .ok (a, db) → B.Step s { s with db := db } ∧ V a)
    (herr : ∀ {db e}, f db = .error e → B.err e) : Within B V (stmt f) := by
  refine .lift fun s hs => ?_
  cases hstep : f s.db with
  | error e => exact ⟨.refl hs, herr hstep⟩
  | ok r => exact hok hs hstep

private theorem within_selects {V : α → Prop} {f : Db → α}
    (hf : ∀ {s : Store}, B.inv s → V (f s.db)) :
    Within B V (select f) := by
  refine within_stmt (fun hs hstep => ?_) fun hstep => by cases hstep
  cases hstep
  exact ⟨.refl hs, hf hs⟩

theorem within_select (f : Db → α) : Stays B (select f) := within_selects fun _ => trivial

theorem within_exec {f : Db → Db} (hf : ∀ {s : Store}, B.inv s → B.Step s { s with db := f s.db }) :
    Stays B (exec f) := by
  refine within_stmt (fun hs hstep => ?_) fun hstep => by cases hstep
  cases hstep
  exact ⟨hf hs, trivial⟩

theorem within_insert {f : Db → Except Error Db}
    (hok : ∀ {s : Store} {db}, B.inv s → f s.db = .ok db → B.Step s { s with db := db })
    (herr : ∀ {db e}, f db = .error e → B.err e) :
    Stays B (stmt fun db => (f db).map ((), ·)) := by
  refine within_stmt (fun {s a db} hs hstep => ?_) fun {db e} hstep => ?_
  · cases hrun : f s.db <;> rw [hrun] at hstep <;> cases hstep
    exact ⟨hok hs hrun, trivial⟩
  · cases hrun : f db <;> rw [hrun] at hstep <;> cases hstep
    exact herr hrun

theorem within_tx {V : α → Prop} {p : StorageM α} (hp : Within B V p) : Within B V (tx p) :=
  .transaction hp

theorem within_dbChanges (label : Label) (rows : Nat) : Stays B (dbChanges label rows) :=
  .tryCatch (.lift fun _ hs => ⟨.refl hs, trivial⟩) fun _ _ => .pure trivial

theorem within_chunkReferenced (digest : Bytes) : Stays B (chunkReferenced digest) :=
  .seq (within_select _) fun _ => .ite (fun _ => .pure trivial) fun _ => within_select _

theorem within_attempt {p : StorageM Unit} (hp : Stays B p) : Stays B (attempt p) :=
  .tryCatch hp fun _ _ => .pure trivial

end

/-- `commit_session` behind the first look at the session. -/
def commitLoaded (sha : Sha256) (now : Int64) (sessionId : Bytes) (session : SessionInfo) :
    StorageM ArtifactInfo := do
  expireSessionIfDue session now
  if ← transition sessionId .open .committing then
    commitBody sha now session
  else do
    let session ← loadSession sessionId
    if session.state = .expired then MonadExcept.throw (.of .eExpired "upload session expired")
    else MonadExcept.throw (.of .eState "session is not OPEN")

theorem commitSession_eq (sha : Sha256) (env : CallEnv) (sessionId : Bytes) :
    commitSession sha env sessionId =
      loadSession sessionId >>= commitLoaded sha env.now sessionId := rfl

/-- The rows that this update makes OPEN or COMMITTING are OPEN or COMMITTING before. -/
def NoRevival (cond : SessionInfo → Bool) (state : SessionState) : Prop :=
  state.live = true → ∀ row, cond row = true → row.state.live = true

/-- The rows that `create_session` inserts under this configuration meet `VS`. -/
def NewSessions (cfg : StorageConfig) (VS : SessionInfo → Prop) : Prop :=
  ∀ {env ns name version size digest owner}, frIdentValidComponent ns = true →
    frIdentValidComponent name = true → frIdentValidVersion version = true →
    VS (newSession cfg env ns name version size digest owner)

/-- The row is for a chunk that one of these sessions expects. -/
def PartOf (VS : SessionInfo → Prop) (row : PartRow) : Prop :=
  ∃ session ordinal, VS session ∧ session.id = row.sessionId ∧
    row.ordinal = ordinal.toInt64 ∧ ordinal < chunkCount session

/-- What a bound has to admit for a call at this time that leaves the artifacts, the manifests, the
chunk files and the rows of chunks in place and brings no part, if the rows of sessions meet `VS`
and the lengths of parts `VL`. -/
structure SparesParts (now : Int64) (B : Bound Store Error) (VS : SessionInfo → Prop)
    (VL : UInt64 → Prop) : Prop where
  /-- The texts of errors fit a reply. -/
  fr : ∀ code {what}, what.length ≤ 512 → B.err (.fr code what)
  reserve : B.err (.std (ascii "vector::reserve"))
  scratch : ∀ {s s'}, B.inv s → s'.db = s.db → s'.files = s.files → B.Step s s'
  insertChunk : ∀ {s row}, B.inv s → row.state = .active → VL row.rawSize.toUInt64 →
    B.Step s { s with db := s.db.insertChunkOrIgnore row }
  reactivate : ∀ {s cond}, B.inv s → B.Step s { s with db := s.db.reactivate cond }
  markPending : ∀ {s digest}, B.inv s → B.Step s { s with db := s.db.markPending now digest }
  setSessionState : ∀ {s cond state}, B.inv s → NoRevival cond state →
    B.Step s { s with db := s.db.setSessionState cond state }
  insertSession : ∀ {s row db}, B.inv s → VS row → s.db.insertSession row = .ok db →
    B.Step s { s with db := db }
  deleteParts : ∀ {s id}, B.inv s → B.Step s { s with db := s.db.deleteParts id }
  sessions : ∀ {s}, B.inv s → ∀ row ∈ s.db.uploadSession, VS row
  parts : ∀ {s}, B.inv s → ∀ row ∈ s.db.uploadPart, VL row.length
  dataLength : ∀ {session} {data : Bytes}, VS session → 0 < data.length →
    data.length ≤ session.chunkSize.toNat → VL (UInt64.ofNat data.length)

/-- The same where parts and manifests may be written. -/
structure Spares (now : Int64) (B : Bound Store Error) (VS : SessionInfo → Prop)
    (VL : UInt64 → Prop) : Prop extends SparesParts now B VS VL where
  insertPart : ∀ {s row db}, B.inv s → VL row.length → PartOf VS row →
    s.db.insertPart row = .ok db → B.Step s { s with db := db }
  insertArtifactChunk : ∀ {s row db}, B.inv s → VL row.entry.length →
    s.db.insertArtifactChunk row = .ok db → B.Step s { s with db := db }

/-- What a bound has to admit for a call at this time that leaves the artifacts alone. -/
structure Admits (now : Int64) (B : Bound Store Error) (VS : SessionInfo → Prop)
    (VL : UInt64 → Prop) : Prop extends Spares now B VS VL where
  files : ∀ {s s'}, B.inv s → s'.db = s.db → B.Step s s'
  deleteChunk : ∀ {s digest}, B.inv s → B.Step s { s with db := s.db.deleteChunk digest }
  scratch := fun hs hdb _ => files hs hdb

/-- The bound admits the publication of this session. -/
abbrev AdmitsArtifact (now : Int64) (B : Bound Store Error) (session : SessionInfo) : Prop :=
  ∀ {s id db}, B.inv s → s.db.insertArtifact (session.artifactRow now) = .ok (id, db) →
    B.Step s { s with db := db }

/-- What a bound has to admit for every call at this time. -/
structure Allows (now : Int64) (B : Bound Store Error) (VS : SessionInfo → Prop)
    (VL : UInt64 → Prop) : Prop extends Admits now B VS VL where
  insertArtifact : ∀ {session}, VS session → AdmitsArtifact now B session
  removeArtifact : ∀ {s id}, B.inv s → B.Step s { s with db := s.db.deleteArtifact id }

private theorem Db.partsByOrdinal_sorted (db : Db) (sessionId : Bytes) :
    (db.partsByOrdinal sessionId).Pairwise fun a b => a.ordinal.toInt ≤ b.ordinal.toInt := by
  have : Std.Total fun a b : PartRow => a.ordinal.toInt ≤ b.ordinal.toInt :=
    ⟨fun a b => le_total a.ordinal.toInt b.ordinal.toInt⟩
  have : IsTrans PartRow fun a b => a.ordinal.toInt ≤ b.ordinal.toInt :=
    ⟨fun _ _ _ h h' => le_trans h h'⟩
  exact List.pairwise_insertionSort _ _

namespace SparesParts

variable {now : Int64} {B : Bound Store Error} {VS : SessionInfo → Prop} {VL : UInt64 → Prop}
  {α : Type} (h : SparesParts now B VS VL)

include h

theorem of {code : FrStatus} {message : String} (hlen : (ascii message).length ≤ 512) :
    B.err (.of code message) := h.fr code hlen

theorem sumActive : Stays B (stmt fun db => db.sumActive.map (·, db)) := by
  refine within_stmt (fun {s a db} hs hstep => ?_) fun {db e} hstep => ?_
  · cases hrun : s.db.sumActive <;> rw [hrun] at hstep <;> cases hstep
    exact ⟨.refl hs, trivial⟩
  · unfold Db.sumActive sumRawSize at hstep
    dsimp only at hstep
    split at hstep <;> cases hstep
    exact h.of (by decide)

theorem loadSession (sessionId : Bytes) :
    Within B (fun session => VS session ∧ session.id = sessionId) (loadSession sessionId) := by
  refine .bind (within_selects (V := fun r => ∀ session ∈ r, VS session ∧ session.id = sessionId)
    fun hs session hsession => ?_) fun found hfound => ?_
  · obtain ⟨hmem, hid⟩ := Db.session?_some hsession
    exact ⟨h.sessions hs session hmem, hid⟩
  cases found with
  | none => exact .throw (h.of (by decide))
  | some session => exact .pure (hfound session rfl)

theorem updateSessions {cond : SessionInfo → Bool} {state : SessionState}
    (hlive : NoRevival cond state) : Stays B (updateSessions cond state) := by
  refine .lift fun s hs => ⟨?_, trivial⟩
  have hset := h.setSessionState hs hlive
  exact hset.trans (h.scratch hset.2 rfl rfl)

theorem transition (sessionId : Bytes) {source target : SessionState}
    (hlive : target.live = true → source.live = true) :
    Stays B (transition sessionId source target) := by
  refine .seq (h.updateSessions fun htarget row hrow => ?_) fun rows =>
    .seq (within_dbChanges _ rows) fun _ => .pure trivial
  rw [Bool.and_eq_true, beq_iff_eq, beq_iff_eq] at hrow
  rw [hrow.2, hlive htarget]

private theorem scratchFile {act : Store → Except Error α × Store}
    (hact : ∀ s, (act s).2.db = s.db ∧ (act s).2.files = s.files)
    (herr : ∀ {s e}, (act s).1 = .error e → B.err e) : Stays B (fileStep act) := by
  refine .lift fun s hs => ⟨h.scratch hs (hact s).1 (hact s).2, ?_⟩
  cases hresult : (act s).1 with
  | ok a => trivial
  | error e => exact herr hresult

theorem chunkPath (digestHex : Bytes) : Stays B (chunkPath digestHex) := by
  unfold ForgeRelay.chunkPath
  split
  · exact .pure trivial
  · exact .throw (h.of (by decide))

private theorem scratchOk {f : Store → α} {g : Store → Store}
    (hg : ∀ s, (g s).db = s.db ∧ (g s).files = s.files) :
    Stays B (fileStep fun s => (.ok (f s), g s)) :=
  h.scratchFile hg fun he => by cases he

theorem tmpFileFill (name data : Bytes) : Stays B (tmpFileFill name data) := by
  have hsilent : Stays B silentStep := h.scratchOk fun _ => ⟨rfl, rfl⟩
  have hwrite : ∀ data, Stays B (tmpFileWrite name data) := fun _ =>
    h.scratchOk fun _ => ⟨rfl, rfl⟩
  exact .seq (hwrite _) fun _ => .seq (.ite (fun _ => hwrite _) fun _ => .pure trivial) fun _ =>
    .seq hsilent fun _ => .seq hsilent fun _ => hsilent

theorem tmpFileCreate (name : Bytes) : Stays B (tmpFileCreate name) := by
  refine h.scratchFile (fun s => ?_) fun he => ?_
  · split <;> exact ⟨rfl, rfl⟩
  · split at he <;> cases he
    exact h.of (by decide)

theorem parseHeader {header : Bytes} {e : Error} (he : parseHeader header = .error e) :
    B.err e := by
  unfold ForgeRelay.parseHeader at he
  dsimp only at he
  repeat' split at he
  all_goals
    cases he
    try exact h.of (by decide)

theorem chunkFileRange {content : Bytes} {offset len : UInt64} {e : Error}
    (he : chunkFileRange content offset len = .error e) : B.err e := by
  unfold ForgeRelay.chunkFileRange at he
  have hguard : ∀ {c : Prop} [Decidable c] {e' : Error} {k : Unit → Except Error Bytes},
      (c → B.err e') →
      (if c then (MonadExcept.throw e' : Except Error Unit) >>= k else k ()) = .error e →
        B.err e ∨ k () = .error e := by
    intro c _ e' k he' hrun
    by_cases hc : c
    · rw [if_pos hc] at hrun
      cases hrun
      exact .inl (he' hc)
    · rw [if_neg hc] at hrun
      exact .inr hrun
  have hheader : content.length < chunkHeaderSize → B.err (.fr .eIo (ascii
      ("read chunk header: read_full: got " ++ toString content.length ++ " of 32 bytes"))) := by
    intro hlt
    have hdigits := toString_length_le (lt_trans hlt (by decide : chunkHeaderSize < 2^64))
    refine h.fr _ ?_
    rw [ascii_length, String.length_append, String.length_append]
    have hfirst : "read chunk header: read_full: got ".length = 34 := by decide
    have hlast : " of 32 bytes".length = 12 := by decide
    omega
  have hdata : ∀ {data : Bytes} {remaining : UInt64}, data.length < remaining.toNat →
      B.err (.fr .eEof (ascii ("read chunk data: read_full: got " ++ toString data.length ++
        " of " ++ toString remaining.toNat ++ " bytes"))) := by
    intro data remaining hlt
    have hdigits := toString_length_le (hlt.trans remaining.toNat_lt)
    have hdigits' := toString_length_le remaining.toNat_lt
    refine h.fr _ ?_
    rw [ascii_length, String.length_append, String.length_append, String.length_append,
      String.length_append]
    have hfirst : "read chunk data: read_full: got ".length = 32 := by decide
    have hmid : " of ".length = 4 := by decide
    have hlast : " bytes".length = 6 := by decide
    omega
  rcases hguard hheader he with hT | he
  · exact hT
  cases hinfo : ForgeRelay.parseHeader (content.take chunkHeaderSize) with
  | error e' =>
    rw [hinfo] at he
    cases he
    exact h.parseHeader hinfo
  | ok info =>
    rw [hinfo] at he
    change (if info.rawLen < offset then _ else _) = _ at he
    rcases hguard (fun _ => h.of (by decide)) he with hT | he
    · exact hT
    dsimp only at he
    rcases hguard hdata he with hT | he
    · exact hT
    rcases hguard (fun _ => h.of (by decide)) he with hT | he
    · exact hT
    cases he

theorem chunkStoreGetRange (digestHex : Bytes) (offset len : UInt64) :
    Stays B (chunkStoreGetRange digestHex offset len) := by
  refine .ite (fun _ => .throw (h.of (by decide))) fun _ => .seq (h.chunkPath _) fun path =>
    h.scratchFile (fun s => ?_) fun he => ?_
  · split <;> exact ⟨rfl, rfl⟩
  · split at he
    · cases he
      exact h.of (by decide)
    · exact h.chunkFileRange he

theorem chunkStoreGet (digestHex : Bytes) : Stays B (chunkStoreGet digestHex) :=
  h.chunkStoreGetRange _ _ _

theorem unlinkTempFiles (names : List Bytes) : Stays B (unlinkTempFiles names) := by
  induction names with
  | nil => exact .pure trivial
  | cons name rest ih =>
    refine .seq (.ite (fun _ => ?_) fun _ => .pure trivial) fun _ => .seq ih fun _ => .pure trivial
    exact .tryCatch (.seq (h.scratchOk fun _ => ⟨rfl, rfl⟩) fun _ => .pure trivial)
      fun _ _ => .pure trivial

theorem cleanupTempFiles : Stays B cleanupTempFiles :=
  .seq (h.scratchOk fun _ => ⟨rfl, rfl⟩) fun names => h.unlinkTempFiles names

theorem readChunks (manifest : List ManifestEntry) : Stays B (readChunks manifest) := by
  induction manifest with
  | nil => exact .pure trivial
  | cons entry entries ih =>
    exact .seq (h.chunkStoreGet _) fun _ => .seq ih fun _ => .pure trivial

theorem markIfUnreferenced (digest : Bytes) : Stays B (markIfUnreferenced now digest) :=
  .seq (within_chunkReferenced _) fun _ => .ite (fun _ => .pure trivial) fun _ =>
    within_exec h.markPending

theorem markAllUnreferenced (digests : List Bytes) : Stays B (markAllUnreferenced now digests) := by
  induction digests with
  | nil => exact .pure trivial
  | cons digest rest ih => exact .seq (.labelled (h.markIfUnreferenced digest)) fun _ => ih

theorem markUnreferencedParts (sessionId : Bytes) :
    Stays B (markUnreferencedParts sessionId now) :=
  .seq (within_select _) fun digests => .seq (within_exec h.deleteParts) fun _ =>
    h.markAllUnreferenced digests

theorem markAllDeleted (digests : List Bytes) : Stays B (markAllDeleted now digests) := by
  induction digests with
  | nil => exact .pure trivial
  | cons digest rest ih =>
    refine .seq (.seq (within_chunkReferenced digest) fun _ =>
      .ite (fun _ => .pure trivial) fun _ => ?_)
      fun _ => .seq ih fun _ => .pure trivial
    refine within_stmt (fun hs hstep => ?_) fun hstep => by cases hstep
    cases hstep
    exact ⟨h.markPending hs, trivial⟩

theorem expireSessionIfDue (session : SessionInfo) : Stays B (expireSessionIfDue session now) :=
  .ite (fun _ => .seq (within_exec fun hs => h.setSessionState hs nofun) fun _ =>
    h.markUnreferencedParts _) fun _ => .pure trivial

theorem createSession (cfg : StorageConfig) (env : CallEnv) (ns name version : Bytes)
    (expectedSize : UInt64) (expectedDigest owner : Bytes) (hnew : NewSessions cfg VS) :
    Within B VS (createSession cfg env ns name version expectedSize expectedDigest owner) := by
  refine .ite (fun _ => .throw (h.of (by decide))) fun hvalid =>
    .ite (fun _ => .throw (h.of (by decide))) fun _ =>
    .ite (fun _ => .throw (h.of (by decide))) fun _ => ?_
  obtain ⟨hns, hname, hversion⟩ := not_not.mp hvalid
  have hnew :
      VS (ForgeRelay.newSession cfg env ns name version expectedSize expectedDigest owner) :=
    hnew hns hname hversion
  refine within_tx (.seq (within_select _) fun active =>
    .ite (fun _ => .throw (h.of (by decide))) fun _ => ?_)
  refine .seq h.sumActive fun used => .ite (fun _ => .throw (h.of (by decide))) fun _ => ?_
  refine .seq (within_insert (fun hs hdb => h.insertSession hs hnew hdb) fun he => ?_) fun _ =>
    .pure hnew
  unfold Db.insertSession at he
  split at he <;> cases he
  exact h.of (by decide)

theorem rollbackAndThrow {V : α → Prop} (sessionId : Bytes) {e : Error} (he : B.err e) :
    Within B V (rollbackAndThrow sessionId e : StorageM α) :=
  .seq (.seq (h.transition _ fun _ => rfl) fun _ => .pure trivial) fun _ => .throw he

private theorem scanParts_error {chunkSize total : UInt64} {ordinal : Int64}
    {acc : List ManifestEntry} {parts : List PartRow} {e : Error}
    (he : scanParts chunkSize ordinal total acc parts = .error e) : B.err e := by
  induction parts generalizing ordinal total acc with
  | nil => cases he
  | cons part parts ih =>
    rw [scanParts] at he
    split at he
    · cases he
      exact h.of (by decide)
    split at he
    · cases he
      exact h.of (by decide)
    exact ih he

omit h in
theorem scanParts_ok {chunkSize total total' : UInt64} {ordinal : Int64}
    {acc manifest : List ManifestEntry} {parts : List PartRow}
    (hparts : ∀ row ∈ parts, VL row.length) (hacc : ∀ entry ∈ acc, VL entry.length)
    (hscan : scanParts chunkSize ordinal total acc parts = .ok (manifest, total')) :
    ∀ entry ∈ manifest, VL entry.length := by
  induction parts generalizing ordinal total acc with
  | nil =>
    cases hscan
    exact fun entry hentry => hacc entry (List.mem_reverse.mp hentry)
  | cons part parts ih =>
    obtain ⟨hpart, hparts⟩ := List.forall_mem_cons.mp hparts
    rw [scanParts] at hscan
    split at hscan
    · cases hscan
    split at hscan
    · cases hscan
    exact ih hparts (List.forall_mem_cons.mpr ⟨hpart, hacc⟩) hscan

omit h in
/-- Ordinals that count up and are sorted do not wrap around. -/
private theorem scanParts_length {chunkSize total total' : UInt64} {ordinal : Int64}
    {acc manifest : List ManifestEntry} {parts : List PartRow}
    (hsorted : parts.Pairwise fun a b => a.ordinal.toInt ≤ b.ordinal.toInt)
    (hscan : scanParts chunkSize ordinal total acc parts = .ok (manifest, total')) :
    manifest.length = acc.length + parts.length ∧ parts.length + ordinal.toInt ≤ 2^63 := by
  induction parts generalizing ordinal total acc with
  | nil =>
    cases hscan
    have hlt := ordinal.toInt_lt
    simp only [List.length_reverse, List.length_nil]
    omega
  | cons part parts ih =>
    obtain ⟨hfirst, hsorted⟩ := List.pairwise_cons.mp hsorted
    rw [scanParts] at hscan
    split at hscan
    · cases hscan
    rename_i hordinal
    split at hscan
    · cases hscan
    obtain ⟨hlength, hbound⟩ := ih hsorted hscan
    have hlt := ordinal.toInt_lt
    have hge := ordinal.le_toInt
    have hnext := Int64.toInt_add ordinal 1
    rw [show (1 : Int64).toInt = 1 from rfl] at hnext
    simp only [List.length_cons] at hlength ⊢
    refine ⟨by omega, ?_⟩
    by_cases hmax : ordinal.toInt = 2^63 - 1
    · cases parts with
      | nil =>
        simp only [List.length_nil]
        omega
      | cons next rest =>
        have hwrapped : (ordinal + 1).toInt = -2^63 := by
          rw [hnext, hmax]
          decide
        have hle := hfirst next List.mem_cons_self
        rw [scanParts] at hscan
        split at hscan
        · cases hscan
        rename_i hordinal'
        rw [not_not.mp hordinal, not_not.mp hordinal', hwrapped] at hle
        omega
    · rw [Int.bmod_eq_of_le (by omega) (by omega)] at hnext
      omega

theorem reserveManifest (count : UInt64) : Stays B (reserveManifest count) := by
  refine .lift fun s hs => ?_
  split
  · exact ⟨.refl hs, h.reserve⟩
  · exact ⟨.refl hs, trivial⟩

theorem abortSession (env : CallEnv) (henv : env.now = now) (sessionId : Bytes) :
    Stays B (abortSession env sessionId) := by
  subst henv
  refine .seq (h.loadSession _).stays fun session => .ite (fun _ => .pure trivial) fun _ =>
    .labelled (within_tx ?_)
  exact .seq (h.transition _ nofun) fun _ => h.markUnreferencedParts _

theorem showArtifact (ns name version : Bytes) : Stays B (showArtifact ns name version) := by
  refine .seq (within_select _) fun found => ?_
  cases found with
  | none => exact .throw (h.of (by decide))
  | some row => exact .seq (within_select _) fun _ => .pure trivial

theorem readSliceEntries (offset remaining : UInt64) (entries : List ManifestEntry) :
    Stays B (readSliceEntries offset remaining entries) := by
  induction entries generalizing offset remaining with
  | nil => exact .pure trivial
  | cons entry entries ih =>
    refine .ite (fun _ => .pure trivial) fun _ => .ite (fun _ => ih _ _) fun _ =>
      .ite (fun _ => .pure trivial) fun _ => ?_
    exact .seq (h.chunkStoreGetRange _ _ _) fun _ => .seq (ih _ _) fun _ => .pure trivial

theorem readArtifactSlice (ns name version : Bytes) (offset maxLen : UInt64) :
    Stays B (readArtifactSlice ns name version offset maxLen) :=
  .seq (h.showArtifact _ _ _) fun _ => .ite (fun _ => .throw (h.of (by decide))) fun _ =>
    h.readSliceEntries _ _ _

theorem listArtifacts (ns name : Option Bytes) (limit offset : Int64) :
    Stays B (listArtifacts ns name limit offset) :=
  .ite (fun _ => .throw (h.of (by decide))) fun _ => .seq (within_select _) fun _ => .pure trivial

theorem usedBytes : Stays B usedBytes := .seq h.sumActive fun _ => .pure trivial

theorem sessionProgress (sessionId : Bytes) : Stays B (sessionProgress sessionId) :=
  .seq (h.loadSession _).stays fun _ => .seq (within_select _) fun _ => .pure trivial

theorem runMaintenance (env : CallEnv) (henv : env.now = now) : Stays B (runMaintenance env) := by
  subst henv
  have hcommitting : NoRevival isCommitting .open := by
    intro _ row hrow
    rw [beq_iff_eq.mp hrow]
    rfl
  refine .seq h.cleanupTempFiles fun _ => .seq (.labelled (h.updateSessions nofun)) fun expired =>
    .seq (within_dbChanges _ expired) fun _ => .seq (h.updateSessions hcommitting) fun rolled =>
    .seq (within_dbChanges _ rolled) fun _ => .seq (within_select _) fun terminal => ?_
  exact .seq (.forM fun id _ => h.markUnreferencedParts id) fun _ => .pure trivial

theorem openStorage (cfg : StorageConfig) (env : CallEnv) (henv : env.now = now) :
    Stays B (openStorage cfg env) := by
  refine .seq (.ofExcept ?_) fun _ => .seq (h.runMaintenance env henv) fun _ => .pure trivial
  unfold checkConfig
  repeat' split
  all_goals
    first
    | exact h.of (by decide)
    | trivial

theorem deleteArtifact (env : CallEnv) (henv : env.now = now) (ns name version : Bytes)
    (hremove : ∀ {s id}, B.inv s → B.Step s { s with db := s.db.deleteArtifact id }) :
    Stays B (deleteArtifact env ns name version) := by
  subst henv
  refine within_tx (.seq (within_select _) fun found => ?_)
  cases found with
  | none => exact .throw (h.of (by decide))
  | some row =>
    exact .seq (within_select _) fun manifest => .seq (within_exec hremove) fun _ =>
      .seq (h.markAllDeleted _) fun _ => .pure trivial

end SparesParts

namespace Spares

variable {now : Int64} {B : Bound Store Error} {VS : SessionInfo → Prop} {VL : UInt64 → Prop}
  (h : Spares now B VS VL)

include h

theorem registerPart (sessionId : Bytes) (ordinal : UInt64) {data : Bytes} (digestHex : Bytes)
    (hdata : VL (UInt64.ofNat data.length))
    (hpart : ∃ session, VS session ∧ session.id = sessionId ∧ ordinal < chunkCount session) :
    Stays B (registerPart now sessionId ordinal data digestHex) := by
  obtain ⟨session, hsession, hid, hordinal⟩ := hpart
  refine .seq (within_select _) fun found => ?_
  cases found with
  | some existing => exact .ite (fun _ => .pure trivial) fun _ => .throw (h.of (by decide))
  | none =>
    refine .seq (within_exec fun hs => h.insertChunk hs rfl (by simpa using hdata)) fun _ =>
      .seq (within_exec h.reactivate) fun _ =>
      .seq (within_insert (fun hs hdb => h.insertPart hs hdata
        ⟨session, ordinal, hsession, hid, rfl, hordinal⟩ hdb) fun he => ?_) fun _ =>
        .pure trivial
    unfold Db.insertPart at he
    split at he
    · cases he
      exact h.of (by decide)
    · split at he <;> cases he
      exact h.of (by decide)

theorem publish {session : SessionInfo} {manifest : List ManifestEntry}
    (hpublish : AdmitsArtifact now B session)
    (hmanifest : ∀ entry ∈ manifest, VL entry.length) : Stays B (publish now session manifest) := by
  refine .seq (within_select _) fun found => .ite (fun _ => .pure trivial) fun _ => ?_
  refine .seq (within_stmt (fun hs hdb => ⟨hpublish hs hdb, trivial⟩) fun he => ?_)
    fun artifactId => ?_
  · unfold Db.insertArtifact at he
    split at he
    · cases he
      exact h.of (by decide)
    · split at he <;> cases he
      exact h.of (by decide)
  refine .seq (.forM fun entry hentry => .seq (within_exec h.reactivate) fun _ =>
    within_insert (fun hs hdb => h.insertArtifactChunk hs (hmanifest entry hentry) hdb)
      fun he => ?_) fun _ =>
        .seq (within_exec fun hs => h.setSessionState hs nofun) fun _ => .pure trivial
  unfold Db.insertArtifactChunk at he
  split at he <;> cases he
  exact h.of (by decide)

private theorem countMismatch {got : Nat} (hgot : got < 2^64) (want : UInt64) :
    B.err (.fr .eState (ascii ("chunk count mismatch: got " ++ toString got ++ ", want " ++
      toString want.toNat))) := by
  have hdigits := toString_length_le hgot
  have hdigits' := toString_length_le want.toNat_lt
  refine h.fr _ ?_
  rw [ascii_length, String.length_append, String.length_append, String.length_append]
  have hfirst : "chunk count mismatch: got ".length = 26 := by decide
  have hmid : ", want ".length = 7 := by decide
  omega

theorem commitBody (sha : Sha256) {session : SessionInfo}
    (hpublish : AdmitsArtifact now B session) : Stays B (commitBody sha now session) := by
  refine .seq (.labelled (h.reserveManifest _)) fun _ =>
    .bind (.labelled (within_selects (V := fun parts => (∀ row ∈ parts, VL row.length) ∧
      parts.Pairwise fun a b => a.ordinal.toInt ≤ b.ordinal.toInt) ?_)) fun parts hparts => ?_
  · exact fun hs => ⟨fun row hrow => h.parts hs row (Db.mem_partsByOrdinal.mp hrow).1,
      Db.partsByOrdinal_sorted _ _⟩
  obtain ⟨hparts, hsorted⟩ := hparts
  cases hscan : scanParts session.chunkSize 0 0 [] parts with
  | error e => exact h.rollbackAndThrow _ (h.scanParts_error hscan)
  | ok scanned =>
    have hmanifest := SparesParts.scanParts_ok hparts (by simp) hscan
    have hcount : scanned.1.length < 2^64 := by
      obtain ⟨hlength, hbound⟩ := SparesParts.scanParts_length hsorted hscan
      rw [show (0 : Int64).toInt = 0 from rfl] at hbound
      rw [hlength, List.length_nil]
      omega
    refine .ite (fun _ => h.rollbackAndThrow _ (h.countMismatch hcount _)) fun _ =>
      .ite (fun _ => h.rollbackAndThrow _ (h.of (by decide))) fun _ => ?_
    refine .seq (.tryCatch (.labelled (h.readChunks _)) fun e he => h.rollbackAndThrow _ he)
      fun content => .ite (fun _ => h.rollbackAndThrow _ (h.of (by decide))) fun _ => ?_
    refine .seq (.labelled (within_tx (h.publish hpublish hmanifest))) fun published => ?_
    cases published with
    | none => exact h.rollbackAndThrow _ (h.of (by decide))
    | some id => exact .pure trivial

theorem commitLoaded (sha : Sha256) {session : SessionInfo} (sessionId : Bytes)
    (hpublish : AdmitsArtifact now B session) :
    Stays B (commitLoaded sha now sessionId session) := by
  refine .seq (h.expireSessionIfDue session) fun _ =>
    .seq (h.transition _ fun _ => rfl) fun changed =>
    .ite (fun _ => h.commitBody sha hpublish) fun _ => ?_
  exact .seq (h.loadSession _).stays fun session =>
    .ite (fun _ => .throw (h.of (by decide))) fun _ => .throw (h.of (by decide))

theorem commitSession (sha : Sha256) (env : CallEnv) (henv : env.now = now) (sessionId : Bytes)
    (hpublish : ∀ {session}, VS session → AdmitsArtifact now B session) :
    Stays B (commitSession sha env sessionId) := by
  subst henv
  exact .bind (h.loadSession _) fun session hsession =>
    h.commitLoaded sha sessionId (hpublish hsession.1)

end Spares

namespace Admits

variable {now : Int64} {B : Bound Store Error} {VS : SessionInfo → Prop} {VL : UInt64 → Prop}
  {α : Type} (h : Admits now B VS VL)

include h

private theorem fileOk {f : Store → α} {g : Store → Store} (hg : ∀ s, (g s).db = s.db) :
    Stays B (fileStep fun s => (.ok (f s), g s)) :=
  .lift fun s hs => ⟨h.files hs (hg s), trivial⟩

theorem tmpFileRename (name target : Bytes) : Stays B (tmpFileRename name target) := by
  refine .lift fun s hs => ?_
  split
  · exact ⟨.refl hs, h.of (by decide)⟩
  · exact ⟨h.files hs rfl, trivial⟩

theorem writeChunkFile (tag target data : Bytes) : Stays B (writeChunkFile tag target data) := by
  have hunlink : Stays B (attempt (tmpFileUnlink (tmpFileName tag))) :=
    within_attempt (h.fileOk fun _ => rfl)
  have hexists : Stays B (fileExists target) := h.fileOk fun _ => rfl
  refine .seq (h.tmpFileCreate _) fun _ => .seq (.tryCatch (h.tmpFileFill _ data) fun e he =>
    .seq hunlink fun _ => .throw he) fun _ => ?_
  refine .seq hexists fun _ => .ite (fun _ => hunlink) fun _ => ?_
  exact .tryCatch (h.tmpFileRename _ _) fun e he => .seq hunlink fun _ =>
    .seq hexists fun _ => .ite (fun _ => .pure trivial) fun _ => .throw he

theorem chunkStorePut (sha : Sha256) (tag data digestHex : Bytes) :
    Stays B (chunkStorePut sha tag data digestHex) :=
  .ite (fun _ => .throw (h.of (by decide))) fun _ =>
    .ite (fun _ => .throw (h.of (by decide))) fun _ =>
    .seq (h.chunkPath _) fun target => .seq (h.fileOk fun _ => rfl) fun _ =>
      .ite (fun _ => .pure trivial) fun _ => h.writeChunkFile tag target data

theorem chunkStoreRemove (digestHex : Bytes) : Stays B (chunkStoreRemove digestHex) :=
  .seq (h.chunkPath _) fun _ => h.fileOk fun _ => rfl

theorem putChunk (sha : Sha256) (env : CallEnv) (henv : env.now = now) (sessionId : Bytes)
    (ordinal : UInt64) (data : Bytes) : Stays B (putChunk sha env sessionId ordinal data) := by
  subst henv
  refine .seq (h.loadSession _).stays fun session => .seq (h.expireSessionIfDue session) fun _ =>
    .bind (h.loadSession _) fun session hsession => ?_
  refine .ite (fun _ => .throw (h.of (by decide))) fun _ =>
    .ite (fun _ => .throw (h.of (by decide))) fun _ =>
    .ite (fun _ => .throw (h.of (by decide))) fun hordinal =>
    .ite (fun _ => .throw (h.of (by decide))) fun hlength => ?_
  obtain ⟨hpos, hmax⟩ := not_or.mp hlength
  have hdata : VL (UInt64.ofNat data.length) :=
    h.dataLength hsession.1 (Nat.pos_of_ne_zero hpos) (not_lt.mp hmax)
  exact .seq (h.chunkStorePut _ _ _ _) fun _ => within_tx (h.registerPart _ _ _ hdata
    ⟨session, hsession.1, hsession.2, UInt64.not_le.mp hordinal⟩)

theorem collectGarbage (cfg : StorageConfig) (env : CallEnv) (dryRun : Bool) :
    Stays B (collectGarbage cfg env dryRun) := by
  refine .seq (within_select _) fun candidates => ?_
  generalize (⟨Int64.ofNat candidates.length, 0, 0⟩ : GcReport) = report
  induction candidates generalizing report with
  | nil => exact .pure trivial
  | cons candidate rest ih =>
    refine .seq (.ite (fun _ => .pure trivial) fun _ => .seq (within_chunkReferenced _) fun _ =>
      .ite (fun _ => ?_) fun _ => .ite (fun _ => .pure trivial) fun _ => ?_) fun report => ih report
    · exact .seq (within_exec h.reactivate) fun _ => .pure trivial
    · exact .seq (h.chunkStoreRemove _) fun _ => .seq (within_exec h.deleteChunk) fun _ =>
        .pure trivial

end Admits

/-- The owner that a call creates a session for. -/
def Call.newOwner? : Call → Option Bytes
  | .createSession _ _ _ _ _ owner => some owner
  | _ => none

namespace Allows

variable {now : Int64} {B : Bound Store Error} {VS : SessionInfo → Prop} {VL : UInt64 → Prop}
  (h : Allows now B VS VL)

include h

theorem others (sha : Sha256) (cfg : StorageConfig) (env : CallEnv) (henv : env.now = now)
    {call : Call} (hcall : call.newOwner? = none) : Stays B (call.program sha cfg env) := by
  cases call with
  | createSession => cases hcall
  | putChunk => exact .seq (h.putChunk _ _ henv _ _ _) fun _ => .pure trivial
  | commitSession =>
    exact .seq (h.commitSession _ _ henv _ fun hsession => h.insertArtifact hsession) fun _ =>
      .pure trivial
  | abortSession => exact h.abortSession _ henv _
  | deleteArtifact =>
    exact .seq (h.deleteArtifact _ henv _ _ _ h.removeArtifact) fun _ => .pure trivial
  | collectGarbage => exact .seq (h.collectGarbage _ _ _) fun _ => .pure trivial
  | runMaintenance => exact .seq (h.runMaintenance _ henv) fun _ => .pure trivial

theorem program (sha : Sha256) (cfg : StorageConfig) (env : CallEnv) (henv : env.now = now)
    (hnew : NewSessions cfg VS) (call : Call) : Stays B (call.program sha cfg env) := by
  cases hcall : call.newOwner? with
  | none => exact h.others sha cfg env henv hcall
  | some owner =>
    cases call with
    | createSession =>
      exact .seq (h.createSession _ _ _ _ _ _ _ _ hnew).stays fun _ => .pure trivial
    | _ => cases hcall

end Allows

theorem createSession_ok {cfg : StorageConfig} {env : CallEnv} {ns name version : Bytes}
    {size : UInt64} {digest owner : Bytes} {s s' : Store} {session : SessionInfo}
    (h : (createSession cfg env ns name version size digest owner).run s = (.ok session, s')) :
    session = newSession cfg env ns name version size digest owner := by
  have hprogram : Within .any (· = newSession cfg env ns name version size digest owner)
      (createSession cfg env ns name version size digest owner) := by
    refine .ite (fun _ => .throw trivial) fun _ => .ite (fun _ => .throw trivial) fun _ =>
      .ite (fun _ => .throw trivial) fun _ => within_tx ?_
    refine .seq (.any _) fun active => .ite (fun _ => .throw trivial) fun _ => ?_
    refine .seq (.any _) fun used => .ite (fun _ => .throw trivial) fun _ => ?_
    exact .seq (.any _) fun _ => .pure rfl
  have hresult := (hprogram.run (s := s) trivial).2
  rw [h] at hresult
  exact hresult

section

variable {sha : Sha256} {interrupts : Label → Store → Prop} {B : Bound Store Error}
  {VS : SessionInfo → Prop} {VL : UInt64 → Prop} {sys sys' : System}

theorem System.Step.stays {e : Event} (h : Step sha interrupts sys e sys')
    (hall : Allows e.env.now B VS VL)
    (hnew : ∀ {cfg}, sys.config = some cfg → NewSessions cfg VS) (herr : ∀ e, B.err e)
    (hs : B.inv sys.store) : B.Step sys.store sys'.store := by
  cases h with
  | «open» hexec => exact (hall.openStorage _ _ rfl).exec hexec herr hs
  | call hexec => exact (hall.program _ _ _ rfl (hnew rfl) _).exec hexec herr hs
  | close => exact .refl hs

/-- What every call keeps holds after every run, whose configurations are checked ones. -/
theorem System.run_inv {events : List Event}
    (hrun : Trace.Run (Step sha interrupts) sys events sys') (hall : ∀ now, Allows now B VS VL)
    (hnew : ∀ {cfg}, checkConfig cfg = .ok () → NewSessions cfg VS) (herr : ∀ e, B.err e)
    (hconfig : ∀ cfg, sys.config = some cfg → checkConfig cfg = .ok ()) (hs : B.inv sys.store) :
    B.inv sys'.store := by
  refine (hrun.invariant (I := fun sys => B.inv sys.store ∧
    ∀ cfg, sys.config = some cfg → checkConfig cfg = .ok ()) ?_ ⟨hs, hconfig⟩).1
  rintro sys e sys' - ⟨hinv, hchecked⟩ hstep
  exact ⟨(hstep.stays (hall e.env.now) (fun hcfg => hnew (hchecked _ hcfg)) herr hinv).2,
    System.run_config (.single hstep) hchecked⟩

end

end ForgeRelay
