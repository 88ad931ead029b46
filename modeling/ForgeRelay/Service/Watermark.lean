import ForgeRelay.Lib.Words
import ForgeRelay.Service.Settings
import ForgeRelay.Storage.Durability
import Mathlib.Algebra.Order.BigOperators.Group.List
import Mathlib.Data.UInt

/-!
# The high watermark

`create_session` refuses a session once the ACTIVE chunks take the configured share of the
capacity. It multiplies the capacity and the percentage in 64 bits before it divides, and the
settings' check admits every capacity but 0.
-/

namespace ForgeRelay

open Program Prog

/-- The product that `create_session` divides by 100. -/
def StorageConfig.capacityProduct (cfg : StorageConfig) : Nat :=
  cfg.capacityBytes.toNat * cfg.highWatermarkPercent.toNatClampNeg

/-- The share of the capacity that chunks may take. -/
def StorageConfig.highWatermark (cfg : StorageConfig) : Nat := cfg.capacityProduct / 100

/-- The bytes that the ACTIVE chunks take. -/
def Db.usedBytes (db : Db) : Int :=
  ((db.chunk.filter (·.state == .active)).map (·.rawSize.toInt)).sum

/-- What a request for a session above the watermark gets. -/
def watermarkReached : Error := .of .eLimit "storage high watermark reached"

/-- The request passes the checks in front of the watermark. -/
def ReachesWatermark (cfg : StorageConfig) (s : Store) (ns name version digest owner : Bytes) :
    Prop :=
  (frIdentValidComponent ns ∧ frIdentValidComponent name ∧ frIdentValidVersion version) ∧
    owner ≠ [] ∧ frDigestHexValid digest = true ∧
    (s.db.countOpenSessions owner : Int) < cfg.maxSessionsPerOwner.toInt

/-- The sum of the sizes fits, and either the product fits too, or the used size is not between
what is left of the product and the product; or the sum, which does not fit, is below the
watermark. -/
def WatermarkExact (cfg : StorageConfig) (used : Int) : Prop :=
  if used < 2^63 then
    cfg.capacityProduct < 2^64 ∨ used < (cfg.capacityProduct % 2^64 / 100 : Nat) ∨
      (cfg.highWatermark : Int) ≤ used
  else used < cfg.highWatermark

/-- The sizes that the tables hold are those of chunks that some configuration allows. -/
def SoundSizes (s : Store) : Prop :=
  (∀ row ∈ s.db.uploadSession, row.chunkSize.toNat ≤ 8 * 1024 * 1024) ∧
    (∀ row ∈ s.db.uploadPart, row.length.toNat < 2^63) ∧
    ∀ row ∈ s.db.chunk, 0 ≤ row.rawSize.toInt

/-- The bound that keeps the sizes sound. -/
def soundSizes : Bound Store Error where
  inv := SoundSizes
  rel _ _ := True
  err _ := True
  refl _ := trivial
  trans _ _ := trivial

private theorem soundSizes_newSessions {cfg : StorageConfig} (h : checkConfig cfg = .ok ()) :
    NewSessions cfg fun session => session.chunkSize.toNat ≤ 8 * 1024 * 1024 :=
  fun _ _ _ => (checkConfig_ok h).1.2

private theorem soundSizes_allows (now : Int64) :
    Allows now soundSizes (fun session => session.chunkSize.toNat ≤ 8 * 1024 * 1024)
      fun length => length.toNat < 2^63 where
  fr _ _ _ := trivial
  reserve := trivial
  files hs hdb := ⟨trivial, by change SoundSizes _; rw [SoundSizes, hdb]; exact hs⟩
  insertChunk {s row} hs _ hsize := by
    refine ⟨trivial, ?_⟩
    unfold Db.insertChunkOrIgnore
    split
    · exact hs
    · refine ⟨hs.1, hs.2.1, fun row' hrow' => ?_⟩
      rcases List.mem_append.mp hrow' with hrow' | hrow'
      · exact hs.2.2 row' hrow'
      · rw [List.mem_singleton.mp hrow', Casts.toInt_eq_toNat hsize]
        exact Int.natCast_nonneg _
  reactivate hs := by
    refine ⟨trivial, hs.1, hs.2.1, fun row hrow => ?_⟩
    obtain ⟨row', hrow', rfl⟩ := List.mem_map.mp hrow
    split <;> exact hs.2.2 row' hrow'
  markPending hs := by
    refine ⟨trivial, hs.1, hs.2.1, fun row hrow => ?_⟩
    obtain ⟨row', hrow', rfl⟩ := List.mem_map.mp hrow
    split <;> exact hs.2.2 row' hrow'
  deleteChunk hs :=
    ⟨trivial, hs.1, hs.2.1, fun row hrow => hs.2.2 row (Table.mem_delete.mp hrow).1⟩
  setSessionState hs _ := by
    refine ⟨trivial, fun row hrow => ?_, hs.2⟩
    obtain ⟨row', hrow', rfl⟩ := List.mem_map.mp hrow
    split <;> exact hs.1 row' hrow'
  insertSession {s row db} hs hrow hdb := by
    rw [Db.insertSession_ok hdb]
    refine ⟨trivial, fun row' hrow' => ?_, hs.2⟩
    rcases List.mem_append.mp hrow' with hrow' | hrow'
    · exact hs.1 row' hrow'
    · exact List.mem_singleton.mp hrow' ▸ hrow
  deleteParts hs := ⟨trivial, hs.1, fun row hrow => hs.2.1 row (Table.mem_delete.mp hrow).1, hs.2.2⟩
  insertPart {s row db} hs hlength _ hdb := by
    rw [Db.insertPart_ok hdb]
    refine ⟨trivial, hs.1, fun row' hrow' => ?_, hs.2.2⟩
    rcases List.mem_append.mp hrow' with hrow' | hrow'
    · exact hs.2.1 row' hrow'
    · exact List.mem_singleton.mp hrow' ▸ hlength
  insertArtifact _ _ _ _ hs hdb := ⟨trivial, by rw [(Db.insertArtifact_ok hdb).2]; exact hs⟩
  insertArtifactChunk hs _ hdb := ⟨trivial, by rw [Db.insertArtifactChunk_ok hdb]; exact hs⟩
  removeArtifact hs := ⟨trivial, hs⟩
  sessions hs := hs.1
  parts hs := hs.2.1
  dataLength {session data} hsession _ hdata := by
    rw [UInt64.toNat_ofNat_of_lt' (by simp only [UInt64.size]; omega)]
    omega

private theorem usedBytes_nonneg {sha : Sha256} {sys : System} {events : List Event}
    (hrun : Trace.Run (System.Step sha anywhere) .initial events sys) :
    0 ≤ sys.store.db.usedBytes := by
  have hsizes : SoundSizes sys.store := System.run_inv hrun soundSizes_allows
    soundSizes_newSessions (fun _ => trivial) nofun ⟨nofun, nofun, nofun⟩
  refine List.sum_nonneg fun size hsize => ?_
  obtain ⟨row, hrow, rfl⟩ := List.mem_map.mp hsize
  exact hsizes.2.2 row (List.mem_of_mem_filter hrow)

section

variable {cfg : StorageConfig} {env : CallEnv} {ns name version : Bytes} {size : UInt64}
  {digest owner : Bytes} {s : Store}

private theorem watermark_toNat (hpercent : 0 ≤ cfg.highWatermarkPercent.toInt) :
    (cfg.capacityBytes * cfg.highWatermarkPercent.toInt64.toUInt64 / 100).toNat =
      cfg.capacityProduct % 2^64 / 100 := by
  have hcast : cfg.highWatermarkPercent.toInt64.toUInt64.toNat =
      cfg.highWatermarkPercent.toNatClampNeg := by
    have hle : (0 : Int64) ≤ cfg.highWatermarkPercent.toInt64 := by
      rw [Int64.le_iff_toInt_le, Int32.toInt_toInt64]
      exact hpercent
    rw [Int64.toNat_toUInt64_of_le hle, Int64.toNatClampNeg, Int32.toInt_toInt64,
      Int32.toNatClampNeg]
  rw [UInt64.toNat_div, UInt64.toNat_mul, hcast]
  rfl

private theorem run_createSession (h : ReachesWatermark cfg s ns name version digest owner) :
    ((createSession cfg env ns name version size digest owner).run s).1 =
      .error watermarkReached ↔ ∃ used, s.db.sumActive = .ok used ∧
        cfg.capacityBytes * cfg.highWatermarkPercent.toInt64.toUInt64 / 100 ≤ used.toUInt64 := by
  obtain ⟨hidents, howner, hdigest, hlimit⟩ := h
  rw [createSession, if_neg (not_not.mpr hidents), if_neg howner, if_neg (by simp [hdigest]), tx,
    Prog.transaction, run_lift]
  simp only [run_bind, run_select]
  rw [if_neg (not_le.mpr hlimit)]
  simp only [run_bind, stmt, run_lift]
  cases hsum : s.db.sumActive with
  | error e =>
    have he : e ≠ watermarkReached := by
      unfold Db.sumActive sumRawSize at hsum
      dsimp only at hsum
      split at hsum <;> cases hsum
      decide
    exact iff_of_false (fun h => he (Except.error.inj h)) (by rintro ⟨_, ⟨⟩, -⟩)
  | ok used =>
    dsimp only [Except.map]
    by_cases hreached :
        cfg.capacityBytes * cfg.highWatermarkPercent.toInt64.toUInt64 / 100 ≤ used.toUInt64
    · rw [if_pos hreached]
      exact iff_of_true rfl ⟨used, rfl, hreached⟩
    · rw [if_neg hreached]
      refine iff_of_false (fun h => ?_) ?_
      · simp only [run_bind, run_lift] at h
        unfold Db.insertSession at h
        by_cases hunique : s.db.uploadSession.any
            (·.id == (newSession cfg env ns name version size digest owner).id) = true
        · rw [if_pos hunique] at h
          cases h
        · rw [if_neg hunique] at h
          cases h
      · rintro ⟨used', hused, hle⟩
        cases hused
        exact hreached hle

private theorem run_createSession_early
    (h : ¬ ReachesWatermark cfg s ns name version digest owner) :
    ((createSession cfg env ns name version size digest owner).run s).1 ≠
      .error watermarkReached := by
  have hearlier : ∀ e ∈ [Error.of .eArg "invalid artifact identifier",
      .of .eArg "owner must not be empty",
      .of .eArg "expected digest must be 64 lowercase hex chars",
      .of .eLimit "per-owner active session limit reached"], e ≠ watermarkReached := by
    decide +kernel
  intro hrun
  unfold createSession at hrun
  split at hrun
  · exact absurd (Except.error.inj hrun) (hearlier _ (by simp))
  rename_i hidents
  split at hrun
  · exact absurd (Except.error.inj hrun) (hearlier _ (by simp))
  rename_i howner
  split at hrun
  · exact absurd (Except.error.inj hrun) (hearlier _ (by simp))
  rename_i hdigest
  rw [tx, Prog.transaction, run_lift] at hrun
  simp only [run_bind, run_select] at hrun
  by_cases hlimit : cfg.maxSessionsPerOwner.toInt ≤ (s.db.countOpenSessions owner : Int)
  · rw [if_pos hlimit] at hrun
    exact absurd (Except.error.inj hrun) (hearlier _ (by simp))
  · exact h ⟨not_not.mp hidents, howner, eq_true_of_ne_false hdigest, not_le.mp hlimit⟩

private theorem sumActive_reached (hpercent : 0 ≤ cfg.highWatermarkPercent.toInt)
    (hnonneg : 0 ≤ s.db.usedBytes) :
    (∃ used, s.db.sumActive = .ok used ∧
        cfg.capacityBytes * cfg.highWatermarkPercent.toInt64.toUInt64 / 100 ≤ used.toUInt64) ↔
      s.db.usedBytes < 2^63 ∧
        ((cfg.capacityProduct % 2^64 / 100 : Nat) : Int) ≤ s.db.usedBytes := by
  have hsum : s.db.sumActive = if s.db.usedBytes < 2^63 then .ok (Int64.ofInt s.db.usedBytes)
      else .error (stepError "integer overflow") := by
    have hlow : -2^63 ≤ s.db.usedBytes := by omega
    exact if_congr (and_iff_right hlow) rfl rfl
  rw [hsum]
  by_cases hlt : s.db.usedBytes < 2^63
  · rw [if_pos hlt]
    have hused : (Int64.ofInt s.db.usedBytes).toInt = s.db.usedBytes :=
      Int64.toInt_ofInt_of_le (by omega) (by omega)
    have hcast := Casts.toNat_toUInt64 (Int64.ofInt s.db.usedBytes)
    rw [hused, if_pos hnonneg] at hcast
    constructor
    · rintro ⟨used, hused, hle⟩
      cases hused
      rw [UInt64.le_iff_toNat_le, watermark_toNat hpercent] at hle
      exact ⟨hlt, by omega⟩
    · rintro ⟨-, hle⟩
      refine ⟨_, rfl, ?_⟩
      rw [UInt64.le_iff_toNat_le, watermark_toNat hpercent]
      omega
  · rw [if_neg hlt]
    exact iff_of_false nofun fun h => hlt h.1

end

private theorem wrapped_lt {product : Nat} (h : 2^64 ≤ product) :
    product % 2^64 / 100 < product / 100 := by
  have hsplit := Nat.div_add_mod product (2^64)
  have hquot : 1 ≤ product / 2^64 := (Nat.one_le_div_iff (by decide)).mpr h
  omega

/-- In every reachable state under every accepted configuration, a request gets the watermark's
error exactly from the share of the capacity on, if and only if the numbers fit or the wrong
watermark makes no difference. -/
theorem watermark_exact_iff {sha : Sha256} {sys : System} {events : List Event}
    {cfg : StorageConfig} (hrun : Trace.Run (System.Step sha anywhere) .initial events sys)
    (hopen : sys.config = some cfg) (env : CallEnv) (ns name version : Bytes) (size : UInt64)
    (digest owner : Bytes) :
    (((createSession cfg env ns name version size digest owner).run sys.store).1 =
        .error watermarkReached ↔
      ReachesWatermark cfg sys.store ns name version digest owner ∧
        (cfg.highWatermark : Int) ≤ sys.store.db.usedBytes) ↔
    (ReachesWatermark cfg sys.store ns name version digest owner →
      WatermarkExact cfg sys.store.db.usedBytes) := by
  have hpercent : 0 ≤ cfg.highWatermarkPercent.toInt := by
    have := (checkConfig_ok (System.run_config hrun nofun _ hopen)).2.1
    omega
  have hnonneg := usedBytes_nonneg hrun
  by_cases hreaches : ReachesWatermark cfg sys.store ns name version digest owner
  · rw [run_createSession hreaches, sumActive_reached hpercent hnonneg, WatermarkExact,
      StorageConfig.highWatermark]
    simp only [hreaches, true_and, forall_const]
    generalize sys.store.db.usedBytes = used at hnonneg
    generalize cfg.capacityProduct = product
    split
    · rename_i hlt
      by_cases hfits : product < 2^64
      · rw [Nat.mod_eq_of_lt hfits]
        exact iff_of_true ⟨And.right, fun h => ⟨hlt, h⟩⟩ (.inl hfits)
      · have hwrapped := wrapped_lt (not_lt.mp hfits)
        omega
    · omega
  · exact iff_of_true (iff_of_false (run_createSession_early hreaches) fun h => hreaches h.1)
      fun h => absurd h hreaches

/-- Settings with the capacity that a configuration file gives, all of which may be used. -/
def capacitySettings (capacityBytes : UInt64) : ServerSettings :=
  { sampleSettings (4 * 1024 * 1024) with
    storage := { (sampleSettings (4 * 1024 * 1024)).storage with
      capacityBytes := capacityBytes
      highWatermarkPercent := 100 } }

/-- The fresh storage behind `Storage::open`. -/
def emptyStore (capacityBytes : UInt64) : Store :=
  ((openStorage (capacitySettings capacityBytes).storage (sampleEnv 0)).run .empty).2

private theorem emptyStore_run (capacityBytes : UInt64) :
    Trace.Run (System.Step sampleSha anywhere) .initial
      [⟨.open (capacitySettings capacityBytes).storage, sampleEnv 0, true⟩]
      ⟨emptyStore capacityBytes, some (capacitySettings capacityBytes).storage⟩ := by
  have hexec := exec_run anywhere
    (openStorage (capacitySettings capacityBytes).storage (sampleEnv 0)) .empty
  have hstep : System.Step sampleSha anywhere _ _ _ := .open hexec
  exact .single hstep

theorem watermark_exact_iff_sample :
    ((createSession (capacitySettings (2^40)).storage (sampleEnv 0) (ascii "team") (ascii "app")
      (ascii "1.0") 1 (sampleSha.hex (ascii "a")) (ascii "alice")).run (emptyStore (2^40))).1 ≠
      .error watermarkReached := by
  have hexact := (watermark_exact_iff (emptyStore_run (2^40)) rfl (sampleEnv 0) (ascii "team")
    (ascii "app") (ascii "1.0") 1 (sampleSha.hex (ascii "a")) (ascii "alice")).mpr fun _ => by
      unfold WatermarkExact
      decide +kernel
  exact fun h => absurd (hexact.mp h).2 (by decide +kernel)

/-- With a capacity of 4 EiB, the product of 100 and 2^62 comes out as 0: an empty storage refuses
its first session. -/
theorem watermark_wraps : validateServerSettings (capacitySettings (2^62)) = .ok () ∧
    Trace.Run (System.Step sampleSha anywhere) .initial
      [⟨.open (capacitySettings (2^62)).storage, sampleEnv 0, true⟩]
      ⟨emptyStore (2^62), some (capacitySettings (2^62)).storage⟩ ∧
    ReachesWatermark (capacitySettings (2^62)).storage (emptyStore (2^62)) (ascii "team")
      (ascii "app") (ascii "1.0") (sampleSha.hex (ascii "a")) (ascii "alice") ∧
    ((createSession (capacitySettings (2^62)).storage (sampleEnv 0) (ascii "team") (ascii "app")
      (ascii "1.0") 1 (sampleSha.hex (ascii "a")) (ascii "alice")).run (emptyStore (2^62))).1 =
      .error watermarkReached ∧
    (emptyStore (2^62)).db.usedBytes < (capacitySettings (2^62)).storage.highWatermark := by
  refine ⟨by decide +kernel, emptyStore_run _, ?_, by decide +kernel, by decide +kernel⟩
  unfold ReachesWatermark
  decide +kernel

end ForgeRelay
