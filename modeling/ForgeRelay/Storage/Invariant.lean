import ForgeRelay.Storage.Artifacts
import ForgeRelay.Storage.ChunkFile

/-!
# The invariant of the store

Files hold what their digest says, whatever a manifest or a part of a live session refers to is
there, and every artifact is the concatenation of its chunks, unless digests collide. An ACTIVE
chunk is referred to by somebody, or the next maintenance will look at it, or it is one of the
`leaked` digests.
-/

namespace ForgeRelay

/-- The path of a digest's file. -/
def relPath (digestHex : Bytes) : Bytes := digestHex.take 2 ++ [47] ++ digestHex.drop 2

/-- The manifest of these chunks, from the given ordinal and offset on. -/
def manifestOf (sha : Sha256) : Nat → Nat → List Bytes → List ManifestEntry
  | _, _, [] => []
  | ordinal, offset, data :: rest =>
    ⟨Int64.ofNat ordinal, UInt64.ofNat offset, UInt64.ofNat data.length, sha.hex data⟩ ::
      manifestOf sha (ordinal + 1) (offset + data.length) rest

/-- A manifest or a part of a live session has the digest. -/
def Db.Referenced (db : Db) (digest : Bytes) : Prop :=
  db.inManifest digest = true ∨ db.inLivePart digest = true

/-- A part of an expired or aborted session has the digest. -/
def Db.AwaitsCleanup (db : Db) (digest : Bytes) : Prop :=
  ∃ p ∈ db.uploadPart, p.digest = digest ∧
    ∃ s ∈ db.uploadSession, s.id = p.sessionId ∧ (s.state = .expired ∨ s.state = .aborted)

/-- The chunk has an ACTIVE row and a file. -/
structure Held (s : Store) (digest : Bytes) : Prop where
  row : ∃ c ∈ s.db.chunk, c.digest = digest ∧ c.state = .active
  file : (s.files (relPath digest)).isSome

/-- The artifact with this manifest consists of these chunks. -/
structure Depicts (sha : Sha256) (contents : Set Bytes) (manifest : List ManifestEntry)
    (a : ArtifactRow) (chunks : List Bytes) : Prop where
  known : ∀ data ∈ chunks, data ∈ contents
  count : chunks.length < 2^63
  manifest : manifest = manifestOf sha 0 0 chunks
  size : a.size.toNat = chunks.flatten.length
  digest : a.digest = sha.hex chunks.flatten

/-- What the rows satisfy by themselves. -/
structure RowsInv (sha : Sha256) (contents : Set Bytes) (db : Db) : Prop where
  sessionKeys : (db.uploadSession.map (·.id)).Nodup
  partKeys : (db.uploadPart.map fun p => (p.sessionId, p.ordinal)).Nodup
  partSession : ∀ p ∈ db.uploadPart, ∃ s ∈ db.uploadSession, s.id = p.sessionId
  partData : ∀ p ∈ db.uploadPart,
    ∃ data ∈ contents, p.digest = sha.hex data ∧ p.length.toNat = data.length
  chunkKeys : (db.chunk.map (·.digest)).Nodup
  chunkData : ∀ c ∈ db.chunk, ∃ data ∈ contents, c.digest = sha.hex data
  pendingAt : ∀ c ∈ db.chunk, c.state = .pendingDelete → c.pendingAt ≠ none
  artifactKeys : (db.artifact.map (·.id)).Nodup
  artifactRefs : (db.artifact.map (·.ref)).Nodup
  artifactIds : ∀ a ∈ db.artifact, a.id ≤ db.artifactSeq
  manifestIds : ∀ r ∈ db.artifactChunk, r.artifactId ≤ db.artifactSeq
  manifestData : ∀ r ∈ db.artifactChunk, ∃ data ∈ contents, r.entry.digest = sha.hex data

/-- The invariant. -/
structure StoreInv (sha : Sha256) (contents leaked : Set Bytes) (s : Store) : Prop where
  rows : RowsInv sha contents s.db
  files : ∀ path content, s.files path = some content →
    ∃ data ∈ contents, path = relPath (sha.hex data) ∧ content = chunkFile data
  held : ∀ digest, s.db.Referenced digest → Held s digest
  depicted : sha.NoCollision contents → ∀ a ∈ s.db.artifact,
    ∃ chunks, Depicts sha contents (s.db.manifest a.id) a chunks
  accounted : ∀ c ∈ s.db.chunk, c.state = .active → c.digest ∉ leaked →
    s.db.Referenced c.digest ∨ s.db.AwaitsCleanup c.digest

theorem Db.inManifest_iff {db : Db} {digest : Bytes} :
    db.inManifest digest = true ↔ ∃ r ∈ db.artifactChunk, r.entry.digest = digest := by
  simp [Db.inManifest]

theorem Db.inLivePart_iff {db : Db} {digest : Bytes} :
    db.inLivePart digest = true ↔ ∃ p ∈ db.uploadPart, p.digest = digest ∧
      ∃ s ∈ db.uploadSession, s.id = p.sessionId ∧ s.state.live = true := by
  simp [Db.inLivePart]

theorem Db.mem_manifest {db : Db} {id : Nat} {e : ManifestEntry} :
    e ∈ db.manifest id ↔ ∃ r ∈ db.artifactChunk, r.artifactId = id ∧ r.entry = e := by
  simp [Db.manifest, List.mem_insertionSort, and_assoc]

theorem Db.mem_partsByOrdinal {db : Db} {id : Bytes} {p : PartRow} :
    p ∈ db.partsByOrdinal id ↔ p ∈ db.uploadPart ∧ p.sessionId = id := by
  simp [Db.partsByOrdinal, List.mem_insertionSort]

theorem Db.mem_partDigests {db : Db} {id digest : Bytes} :
    digest ∈ db.partDigests id ↔ ∃ p ∈ db.uploadPart, p.sessionId = id ∧ p.digest = digest := by
  simp [Db.partDigests, and_assoc]

theorem Db.session?_some {db : Db} {id : Bytes} {session : SessionInfo}
    (h : db.session? id = some session) : session ∈ db.uploadSession ∧ session.id = id :=
  ⟨List.mem_of_find?_eq_some h, by simpa using List.find?_some h⟩

theorem ArtifactRow.hasRef_iff {ns name version : Bytes} {a : ArtifactRow} :
    a.hasRef ns name version = true ↔ a.ref = (ns, name, version) := by
  simp [ArtifactRow.hasRef, ArtifactRow.ref, and_assoc]

theorem Db.artifact?_some {db : Db} {ns name version : Bytes} {a : ArtifactRow}
    (h : db.artifact? ns name version = some a) :
    a ∈ db.artifact ∧ a.ref = (ns, name, version) :=
  ⟨List.mem_of_find?_eq_some h, ArtifactRow.hasRef_iff.mp (List.find?_some h)⟩

theorem Db.artifact?_none {db : Db} {ns name version : Bytes}
    (h : db.artifact? ns name version = none) :
    ∀ a ∈ db.artifact, a.ref ≠ (ns, name, version) := by
  intro a ha href
  exact List.find?_eq_none.mp h a ha (ArtifactRow.hasRef_iff.mpr href)

theorem RowsInv.artifact?_eq {sha : Sha256} {contents : Set Bytes} {db : Db}
    (h : RowsInv sha contents db) {a : ArtifactRow} (ha : a ∈ db.artifact) :
    db.artifact? a.ns a.name a.version = some a := by
  cases hfound : db.artifact? a.ns a.name a.version with
  | none => exact absurd rfl (Db.artifact?_none hfound a ha)
  | some b =>
    have href := ArtifactRow.hasRef_iff.mp (List.find?_some hfound)
    rw [Table.eq_of_key h.artifactRefs (List.mem_of_find?_eq_some hfound) ha href]

@[simp] theorem manifestOf_length (sha : Sha256) (i off : Nat) (chunks : List Bytes) :
    (manifestOf sha i off chunks).length = chunks.length := by
  induction chunks generalizing i off with
  | nil => rfl
  | cons data rest ih => rw [manifestOf, List.length_cons, ih, List.length_cons]

theorem mem_manifestOf_digest {sha : Sha256} {i off : Nat} {chunks : List Bytes} {digest : Bytes} :
    (∃ e ∈ manifestOf sha i off chunks, e.digest = digest) ↔
      ∃ data ∈ chunks, sha.hex data = digest := by
  induction chunks generalizing i off with
  | nil => simp [manifestOf]
  | cons data rest ih => simp [manifestOf, ih]

theorem Depicts.referenced {sha : Sha256} {contents : Set Bytes} {db : Db} {a : ArtifactRow}
    {chunks : List Bytes} (h : Depicts sha contents (db.manifest a.id) a chunks) {data : Bytes}
    (hdata : data ∈ chunks) : db.Referenced (sha.hex data) := by
  obtain ⟨e, he, hdigest⟩ := mem_manifestOf_digest (i := 0).mpr
    ⟨data, hdata, rfl⟩
  rw [← h.manifest, Db.mem_manifest] at he
  obtain ⟨r, hr, -, rfl⟩ := he
  exact .inl (Db.inManifest_iff.mpr ⟨r, hr, hdigest⟩)

theorem RowsInv.referenced_known {sha : Sha256} {contents : Set Bytes} {db : Db}
    (h : RowsInv sha contents db) {digest : Bytes} (href : db.Referenced digest) :
    ∃ data ∈ contents, digest = sha.hex data := by
  rcases href with hmanifest | hpart
  · obtain ⟨r, hr, rfl⟩ := Db.inManifest_iff.mp hmanifest
    exact h.manifestData r hr
  · obtain ⟨p, hp, rfl, -⟩ := Db.inLivePart_iff.mp hpart
    obtain ⟨data, hdata, hdigest, -⟩ := h.partData p hp
    exact ⟨data, hdata, hdigest⟩

theorem StoreInv.file_eq {sha : Sha256} {contents leaked : Set Bytes} {s : Store}
    (h : StoreInv sha contents leaked s) (hsha : sha.NoCollision contents) {data : Bytes}
    (hdata : data ∈ contents) (hfile : (s.files (relPath (sha.hex data))).isSome) :
    s.files (relPath (sha.hex data)) = some (chunkFile data) := by
  obtain ⟨content, hcontent⟩ := Option.isSome_iff_exists.mp hfile
  obtain ⟨data', hdata', hpath, rfl⟩ := h.files _ _ hcontent
  have hhex : sha.hex data = sha.hex data' :=
    relPath_injective (sha.hex_length _) (sha.hex_length _) hpath
  rw [hcontent, hsha.eq_of_hex hdata hdata' hhex]

/-- The invariant does not see the temporary files. -/
theorem StoreInv.congr {sha : Sha256} {contents leaked : Set Bytes} {s s' : Store}
    (h : StoreInv sha contents leaked s) (hdb : s'.db = s.db) (hfiles : s'.files = s.files) :
    StoreInv sha contents leaked s' := by
  obtain ⟨db, files, tmp, changes⟩ := s
  obtain ⟨db', files', tmp', changes'⟩ := s'
  simp only at hdb hfiles
  subst hdb hfiles
  exact ⟨h.rows, h.files, fun d hd => ⟨(h.held d hd).row, (h.held d hd).file⟩, h.depicted,
    h.accounted⟩

theorem StoreInv.empty (sha : Sha256) (contents leaked : Set Bytes) :
    StoreInv sha contents leaked .empty := by
  refine ⟨⟨?_, ?_, ?_, ?_, ?_, ?_, ?_, ?_, ?_, ?_, ?_, ?_⟩, ?_, ?_, fun _ => ?_, ?_⟩ <;>
    simp [Store.empty, Db.empty, Db.Referenced, Db.inManifest, Db.inLivePart]

end ForgeRelay
