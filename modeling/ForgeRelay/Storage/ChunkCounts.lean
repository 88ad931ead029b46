import Mathlib.Algebra.Order.Floor.Div
import Mathlib.GroupTheory.GroupAction.Ring
import ForgeRelay.Storage.Steps
import ForgeRelay.Storage.UploadRoundTrip

/-!
# The expected chunk count

`put_chunk`, `commit_session` and `session_progress` round the expected size up to whole chunks.
The rounding expression adds before it divides, and the sum wraps around at the top of the range:
then no ordinal at all is accepted.
-/

namespace ForgeRelay

open Program Prog

variable {sha : Sha256} {s s₀ s₁ : Store} {session : SessionInfo}

/-- The ceiling of the expected size over the chunk size, without bounds. -/
def SessionInfo.chunks (session : SessionInfo) : Nat :=
  session.expectedSize.toNat ⌈/⌉ session.chunkSize.toNat

/-- The session as it comes back from its row: the sizes have gone through INTEGER columns. -/
def SessionInfo.reloaded (session : SessionInfo) : SessionInfo :=
  { session with
    expectedSize := session.expectedSize.toInt64.toUInt64
    chunkSize := session.chunkSize.toInt64.toUInt64 }

@[simp] theorem SessionInfo.reloaded_eq (session : SessionInfo) : session.reloaded = session := by
  simp only [SessionInfo.reloaded, UInt64.toUInt64_toInt64]

private theorem chunkCount_toNat (hpos : 0 < session.chunkSize.toNat) :
    (chunkCount session).toNat =
      if session.expectedSize.toNat + session.chunkSize.toNat ≤ 2^64 then session.chunks
      else 0 := by
  have hsize := session.expectedSize.toNat_lt
  have hchunk := session.chunkSize.toNat_lt
  unfold chunkCount SessionInfo.chunks
  rw [Nat.ceilDiv_eq_add_pred_div]
  by_cases hzero : session.expectedSize = 0
  · rw [if_pos hzero, hzero]
    have hdiv : (0 + session.chunkSize.toNat - 1) / session.chunkSize.toNat = 0 :=
      Nat.div_eq_of_lt (by omega)
    rw [UInt64.toNat_zero, hdiv, ite_self]
  have hne : session.expectedSize.toNat ≠ 0 := fun h => hzero (UInt64.toNat_inj.mp h)
  have hnumerator : (session.expectedSize + session.chunkSize - 1).toNat =
      (session.expectedSize.toNat + session.chunkSize.toNat - 1) % 2^64 := by
    rw [UInt64.toNat_sub, UInt64.toNat_add]
    have hone : (1 : UInt64).toNat = 1 := rfl
    omega
  rw [if_neg hzero, UInt64.toNat_div, hnumerator]
  split
  · rw [Nat.mod_eq_of_lt (by omega)]
  · exact Nat.div_eq_of_lt (by omega)

private theorem chunks_pos (hpos : 0 < session.chunkSize.toNat)
    (hsize : 0 < session.expectedSize.toNat) :
    0 < session.chunks := by
  by_contra hzero
  have hle : session.chunks ≤ 0 := by omega
  have hnone := (ceilDiv_le_iff_le_mul hpos).mp hle
  omega

private theorem chunkCount_exact_iff (hpos : 0 < session.chunkSize.toNat) :
    (chunkCount session).toNat = session.chunks ↔
      session.expectedSize.toNat + session.chunkSize.toNat ≤ 2^64 := by
  rw [chunkCount_toNat hpos]
  split
  · exact iff_of_true rfl ‹_›
  · have hchunk := session.chunkSize.toNat_lt
    have hchunks := chunks_pos hpos (by omega)
    exact iff_of_false (by omega) ‹_›

private theorem lt_chunks_iff (hpos : 0 < session.chunkSize.toNat) (ordinal : Nat) :
    ordinal < session.chunks ↔
      ordinal * session.chunkSize.toNat < session.expectedSize.toNat := by
  rw [Nat.mul_comm, ← not_le, ← not_le]
  exact not_congr (ceilDiv_le_iff_le_mul hpos)

private theorem chunkCount_le_iff (hpos : 0 < session.chunkSize.toNat)
    (hcount : (chunkCount session).toNat = session.chunks) (ordinal : UInt64) :
    chunkCount session ≤ ordinal ↔
      ¬ ordinal.toNat * session.chunkSize.toNat < session.expectedSize.toNat := by
  rw [UInt64.le_iff_toNat_le, hcount, ← not_lt]
  exact not_congr (lt_chunks_iff hpos _)

private theorem chunkCount_reservable (hchunk : 1024 * 1024 ≤ session.chunkSize.toNat) :
    (chunkCount session).toNat ≤ maxManifestEntries := by
  have hmul := chunkCount_mul_lt session
  have hle := Nat.mul_le_mul_left (chunkCount session).toNat hchunk
  unfold maxManifestEntries
  omega

/-- `put_chunk` behind its checks. -/
def storePart (sha : Sha256) (env : CallEnv) (sessionId : Bytes) (ordinal : UInt64)
    (data : Bytes) : StorageM ChunkAccept := do
  chunkStorePut sha env.tmpTag data (sha.hex data)
  tx (registerPart env.now sessionId ordinal data (sha.hex data))

/-- What the operations make of the number of chunks of an OPEN session: a part of an admitted
length is stored if and only if its chunk begins within the content, the progress shows the
ceiling, and a commit with any other number of parts is refused with the ceiling in its text. -/
structure CountsChunks (sha : Sha256) (session : SessionInfo) (s : Store) : Prop where
  count : (chunkCount session.reloaded).toNat = session.chunks
  put : ∀ (env : CallEnv) (ordinal : UInt64) (data : Bytes), env.now < session.expiresAt →
    0 < data.length → data.length ≤ session.chunkSize.toNat →
    (putChunk sha env session.id ordinal data).run s =
      if ordinal.toNat * session.chunkSize.toNat < session.expectedSize.toNat then
        (storePart sha env session.id ordinal data).run s
      else (.error (.of .eRange "chunk ordinal beyond expectation"), s)
  commit : ∀ (env : CallEnv) (manifest : List ManifestEntry) (total : UInt64),
    env.now < session.expiresAt →
    scanParts session.chunkSize 0 0 [] (s.db.partsByOrdinal session.id) = .ok (manifest, total) →
    manifest.length ≠ session.chunks →
    ((commitSession sha env session.id).run s).1 = .error (.fr .eState (ascii
      ("chunk count mismatch: got " ++ toString manifest.length ++ ", want " ++
        toString session.chunks)))
  progress : ∃ progress, (sessionProgress session.id).run s = (.ok progress, s) ∧
    progress.chunkCount.toNat = session.chunks

private theorem putChunk_open_run {env : CallEnv} {ordinal : UInt64} {data : Bytes}
    (hrow : s.db.session? session.id = some session) (hopen : session.state = .open)
    (hdue : env.now < session.expiresAt) (hdata : 0 < data.length)
    (hlength : data.length ≤ session.chunkSize.toNat) :
    (putChunk sha env session.id ordinal data).run s =
      if chunkCount session ≤ ordinal then
        (.error (.of .eRange "chunk ordinal beyond expectation"), s)
      else (storePart sha env session.id ordinal data).run s := by
  unfold putChunk
  rw [run_bind, loadSession_run hrow]
  dsimp only
  rw [run_bind, expireSessionIfDue_run hdue]
  dsimp only
  rw [run_bind, loadSession_run hrow]
  dsimp only
  rw [if_neg (by rw [hopen]; decide), if_neg (by rw [hopen]; decide)]
  split
  · rfl
  · rw [if_neg (by omega)]
    rfl

private theorem rollbackAndThrow_run {α : Type} (sessionId : Bytes) (e : Error) :
    ((rollbackAndThrow sessionId e : StorageM α).run s).1 = .error e := by
  unfold rollbackAndThrow rollbackToOpen
  rw [run_bind, run_bind, run_transition]
  rfl

private theorem commitSession_mismatch_run {env : CallEnv} {manifest : List ManifestEntry}
    {total : UInt64}
    (hrow : s.db.session? session.id = some session) (hopen : session.state = .open)
    (hdue : env.now < session.expiresAt) (hroom : (chunkCount session).toNat ≤ maxManifestEntries)
    (hscan : scanParts session.chunkSize 0 0 [] (s.db.partsByOrdinal session.id) =
      .ok (manifest, total))
    (hcount : manifest.length ≠ (chunkCount session).toNat) :
    ((commitSession sha env session.id).run s).1 = .error (.fr .eState (ascii
      ("chunk count mismatch: got " ++ toString manifest.length ++ ", want " ++
        toString (chunkCount session).toNat))) := by
  obtain ⟨hsession, -⟩ := Db.session?_some hrow
  obtain ⟨s', hs', htransition⟩ : ∃ s' : Store, s'.db.uploadPart = s.db.uploadPart ∧
      (transition session.id .open .committing).run s = (.ok true, s') := by
    refine ⟨_, ?_, transition_run ⟨session, hsession, rfl, hopen⟩⟩
    rfl
  have hreserve : (reserveManifest (chunkCount session)).run s' = (.ok (), s') := by
    rw [reserveManifest, run_lift, if_neg (Nat.not_lt.mpr hroom)]
  have hparts : s'.db.partsByOrdinal session.id = s.db.partsByOrdinal session.id := by
    rw [Db.partsByOrdinal, hs', Db.partsByOrdinal]
  unfold commitSession
  rw [run_bind, loadSession_run hrow]
  dsimp only
  rw [run_bind, expireSessionIfDue_run hdue]
  dsimp only
  rw [run_bind, htransition]
  dsimp only
  unfold commitBody
  rw [if_pos rfl, run_bind, run_labelled, hreserve]
  dsimp only
  rw [run_bind, run_labelled, run_select, hparts]
  dsimp only
  rw [hscan]
  dsimp only
  rw [if_pos hcount]
  exact rollbackAndThrow_run _ _

/-- What `session_progress` finds. -/
def SessionInfo.progress (session : SessionInfo) (db : Db) : SessionProgress :=
  ⟨chunkCount session, (db.partsByOrdinal session.id).map (·.ordinal.toUInt64)⟩

theorem sessionProgress_run (hrow : s.db.session? session.id = some session) :
    (sessionProgress session.id).run s = (.ok (session.progress s.db), s) := by
  unfold sessionProgress
  rw [run_bind, loadSession_run hrow]
  dsimp only
  rw [run_bind, run_select]
  rfl

/-- For a session that `create_session` has made under a checked configuration: the operations
count its chunks right if and only if the sum of the rounding expression stays within 64 bits. -/
theorem countsChunks_iff {cfg : StorageConfig} {env : CallEnv} {ns name version : Bytes}
    {expectedSize : UInt64} {expectedDigest owner : Bytes} (hconfig : checkConfig cfg = .ok ())
    (hcreate : (createSession cfg env ns name version expectedSize expectedDigest owner).run s₀ =
      (.ok session, s₁)) (hrow : s.db.session? session.id = some session) :
    CountsChunks sha session s ↔ expectedSize.toNat + cfg.chunkSize.toNat ≤ 2^64 := by
  obtain ⟨hopen, hsize, hchunk⟩ : session.state = .open ∧ session.expectedSize = expectedSize ∧
      session.chunkSize = cfg.chunkSize := by
    rw [createSession_ok hcreate]
    exact ⟨rfl, rfl, rfl⟩
  have hmin := checkConfig_chunkSize hconfig
  rw [← hchunk] at hmin
  have hpos : 0 < session.chunkSize.toNat := by omega
  rw [← hsize, ← hchunk]
  refine ⟨fun h => (chunkCount_exact_iff hpos).mp ?_, fun hfits => ?_⟩
  · rw [← h.count, session.reloaded_eq]
  have hcount := (chunkCount_exact_iff hpos).mpr hfits
  refine ⟨by rw [session.reloaded_eq, hcount], ?_, ?_, ?_⟩
  · intro env ordinal data hdue hdata hlength
    rw [putChunk_open_run hrow hopen hdue hdata hlength]
    by_cases hwithin : ordinal.toNat * session.chunkSize.toNat < session.expectedSize.toNat
    · rw [if_pos hwithin, if_neg fun h => (chunkCount_le_iff hpos hcount ordinal).mp h hwithin]
    · rw [if_neg hwithin, if_pos ((chunkCount_le_iff hpos hcount ordinal).mpr hwithin)]
  · intro env manifest total hdue hscan hmismatch
    rw [← hcount] at hmismatch ⊢
    exact commitSession_mismatch_run hrow hopen hdue (chunkCount_reservable hmin) hscan hmismatch
  · exact ⟨_, sessionProgress_run hrow, hcount⟩

/-- A session for a content of this size, on a fresh root. -/
def sampleSized (expectedSize : UInt64) : Except Error SessionInfo × Store :=
  (createSession sampleConfig (sampleEnv 0) (ascii "team") (ascii "app") (ascii "1.0") expectedSize
    (sampleSha.hex (ascii "a")) (ascii "alice")).run .empty

private theorem sampleSized_created (expectedSize : UInt64) {session : SessionInfo} {s : Store}
    (h : sampleSized expectedSize = (.ok session, s)) :
    session.expectedSize = expectedSize ∧ session.chunkSize = 4194304 := by
  rw [createSession_ok h]
  exact ⟨rfl, rfl⟩

theorem countsChunks_iff_sample : ∃ session s, sampleSized 1 = (.ok session, s) ∧
    CountsChunks sampleSha session s := by
  have hcreated : (sampleSized 1).1.toOption.any fun session =>
      (sampleSized 1).2.db.session? session.id == some session := by decide +kernel
  rcases hcreate : sampleSized 1 with ⟨e | session, s⟩
  · rw [hcreate] at hcreated
    cases hcreated
  · rw [hcreate] at hcreated
    exact ⟨session, s, rfl, (countsChunks_iff (by decide +kernel) hcreate
      (beq_iff_eq.mp hcreated)).mpr (by decide)⟩

/-- A session for the largest size is made, and no part of it is accepted. -/
theorem largest_size_uncounted : ∃ session s,
    sampleSized 18446744073709551615 = (.ok session, s) ∧
    s.db.session? session.id = some session ∧ ¬ CountsChunks sampleSha session s ∧
    ((putChunk sampleSha (sampleEnv 1) session.id 0 (ascii "a")).run s).1 =
      .error (.of .eRange "chunk ordinal beyond expectation") := by
  have hcreated : (sampleSized 18446744073709551615).1.toOption.any fun session =>
      (sampleSized 18446744073709551615).2.db.session? session.id == some session &&
        decide (((putChunk sampleSha (sampleEnv 1) session.id 0 (ascii "a")).run
          (sampleSized 18446744073709551615).2).1 =
            .error (.of .eRange "chunk ordinal beyond expectation")) := by decide +kernel
  rcases hcreate : sampleSized 18446744073709551615 with ⟨e | session, s⟩
  · rw [hcreate] at hcreated
    cases hcreated
  · obtain ⟨hsize, hchunk⟩ := sampleSized_created _ hcreate
    rw [hcreate] at hcreated
    obtain ⟨hrow, hput⟩ := Bool.and_eq_true_iff.mp hcreated
    refine ⟨session, s, rfl, beq_iff_eq.mp hrow, fun h => ?_, of_decide_eq_true hput⟩
    have hcount := h.count
    rw [session.reloaded_eq, chunkCount_exact_iff (by rw [hchunk]; decide), hsize, hchunk] at hcount
    exact absurd hcount (by decide)

end ForgeRelay
