import ForgeRelay.Storage.Invariant
import Mathlib.Data.List.Dedup

/-!
# What storage is for

A depot keeps the parts of every upload and the chunks of every artifact by value. It has no chunk
files, no digests of chunks and no table of chunks: which contents still count is read off the
uploads and the artifacts. Of a failure it says the status only.
-/

namespace ForgeRelay

/-- A part of an upload. -/
structure Part where
  ordinal : Int64
  data : Bytes
  deriving DecidableEq, Repr

/-- An upload: its session, and the parts that it has been given. -/
structure Upload where
  session : SessionInfo
  parts : List Part
  deriving DecidableEq, Repr

/-- A published artifact, with its chunks in their order. -/
structure Release where
  row : ArtifactRow
  chunks : List Bytes
  deriving DecidableEq, Repr

/-- The uploads and artifacts in the order in which they came, the last number of an artifact, and
the contents that nobody refers to any more, with the time since when. -/
structure Depot where
  uploads : List Upload
  releases : List Release
  issued : Nat
  garbage : List (Bytes × Int64)
  deriving DecidableEq, Repr

/-- A fresh depot. -/
def Depot.empty : Depot := ⟨[], [], 0, []⟩

/-- The status of an `fr::Error`. -/
def Error.status? : Error → Option FrStatus
  | .fr code _ => some code
  | .std _ => none

/-- A result or the status of a failure. -/
abbrev Reply := Except (Option FrStatus)

/-- The failure with this status. -/
def refuse {α : Type} (code : FrStatus) : Reply α := .error (some code)

/-- The contents that an upload holds on to. -/
def Upload.held (u : Upload) : List Bytes :=
  if u.session.state.live then u.parts.map (·.data) else []

/-- The contents that somebody refers to. -/
def Depot.live (d : Depot) : List Bytes :=
  d.releases.flatMap (·.chunks) ++ d.uploads.flatMap Upload.held

/-- Their size; what several refer to counts once. -/
def Depot.used (d : Depot) : Nat := (d.live.dedup.map List.length).sum

/-- The contents that nobody refers to any more. -/
def Depot.dropped (before after : Depot) : List Bytes :=
  before.live.dedup.filter fun data => !after.live.contains data

/-- What is dropped becomes garbage, and what somebody refers to is none. -/
def Depot.settle (now : Int64) (before after : Depot) : Depot :=
  { after with
    garbage := before.garbage.filter (fun g => !after.live.contains g.1) ++
      (before.dropped after).map (·, now) }

def Depot.upload? (d : Depot) (id : Bytes) : Option Upload :=
  d.uploads.find? (·.session.id == id)

def Depot.release? (d : Depot) (ns name version : Bytes) : Option Release :=
  d.releases.find? (·.row.hasRef ns name version)

def Depot.modify (d : Depot) (id : Bytes) (f : Upload → Upload) : Depot :=
  { d with uploads := Table.update (·.session.id == id) f d.uploads }

/-- The upload in another state. -/
def Upload.to (state : SessionState) (u : Upload) : Upload :=
  { u with session := { u.session with state := state } }

/-- The upload gives up its parts. -/
def Upload.close (state : SessionState) (u : Upload) : Upload :=
  { u.to state with parts := [] }

def Upload.add (p : Part) (u : Upload) : Upload := { u with parts := u.parts ++ [p] }

def Upload.part? (u : Upload) (ordinal : Int64) : Option Part :=
  u.parts.find? (·.ordinal == ordinal)

def Depot.expireIfDue (now : Int64) (id : Bytes) (d : Depot) : Depot :=
  match d.upload? id with
  | some u =>
    if u.session.state = .open ∧ u.session.expiresAt ≤ now then
      d.settle now (d.modify id (Upload.close .expired))
    else d
  | none => d

def Depot.create (cfg : StorageConfig) (env : CallEnv) (ns name version : Bytes)
    (expectedSize : UInt64) (expectedDigest owner : Bytes) (d : Depot) :
    Reply SessionInfo × Depot :=
  if ¬(frIdentValidComponent ns ∧ frIdentValidComponent name ∧ frIdentValidVersion version) ∨
      owner = [] ∨ frDigestHexValid expectedDigest = false then (refuse .eArg, d)
  else if cfg.maxSessionsPerOwner.toInt ≤
      d.uploads.countP fun u => u.session.owner == owner && u.session.state == .open then
    (refuse .eLimit, d)
  else if 2^63 ≤ d.used then (refuse .eIo, d)
  else if cfg.capacityBytes * cfg.highWatermarkPercent.toInt64.toUInt64 / 100 ≤
      UInt64.ofNat d.used then (refuse .eLimit, d)
  else if (d.upload? env.newSessionId).isSome then (refuse .eIo, d)
  else
    let session := newSession cfg env ns name version expectedSize expectedDigest owner
    (.ok session, { d with uploads := d.uploads ++ [⟨session, []⟩] })

/-- A chunk for this open upload, which a part with its ordinal may already hold. -/
def Depot.accept (sha : Sha256) (now : Int64) (id : Bytes) (ordinal : UInt64) (data : Bytes)
    (u : Upload) (d : Depot) : Reply ChunkAccept × Depot :=
  match u.part? ordinal.toInt64 with
  | some p =>
    (if p.data = data then .ok { digest := sha.hex data, reused := true } else refuse .eConflict, d)
  | none =>
    (.ok { digest := sha.hex data, reused := false },
      d.settle now (d.modify id (Upload.add ⟨ordinal.toInt64, data⟩)))

def Depot.put (sha : Sha256) (env : CallEnv) (id : Bytes) (ordinal : UInt64) (data : Bytes)
    (d : Depot) : Reply ChunkAccept × Depot :=
  let d := d.expireIfDue env.now id
  match d.upload? id with
  | none => (refuse .eNotfound, d)
  | some u =>
    if u.session.state = .expired then (refuse .eExpired, d)
    else if u.session.state ≠ .open then (refuse .eState, d)
    else if chunkCount u.session ≤ ordinal ∨ data.length = 0 ∨
        u.session.chunkSize.toNat < data.length then (refuse .eRange, d)
    else d.accept sha env.now id ordinal data u

/-- The parts by their ordinals. -/
def Upload.sorted (u : Upload) : List Part :=
  u.parts.insertionSort fun a b => a.ordinal.toInt ≤ b.ordinal.toInt

/-- The chunks in their order. -/
def Upload.chunks (u : Upload) : List Bytes := u.sorted.map (·.data)

/-- Every part is there, and together they have the size that was announced. -/
def Upload.Complete (u : Upload) : Prop :=
  u.sorted.map (·.ordinal) = (List.range (chunkCount u.session).toNat).map Int64.ofNat ∧
    (∀ data ∈ u.chunks, data.length ≤ u.session.chunkSize.toNat) ∧
    u.chunks.flatten.length = u.session.expectedSize.toNat

instance (u : Upload) : Decidable u.Complete := by
  unfold Upload.Complete
  infer_instance

/-- The artifact that an upload becomes. -/
def Upload.release (u : Upload) (now : Int64) (number : Nat) : Release :=
  ⟨{ u.session.artifactRow now with id := number }, u.chunks⟩

/-- What an operation returns of an artifact. -/
def Release.info (sha : Sha256) (r : Release) : ArtifactInfo :=
  r.row.info (manifestOf sha 0 0 r.chunks)

/-- The commit of this open upload. Two ways out leave it COMMITTING. -/
def Depot.publish (sha : Sha256) (now : Int64) (id : Bytes) (u : Upload) (d : Depot) :
    Reply ArtifactInfo × Depot :=
  if maxManifestEntries < (chunkCount u.session).toNat then
    (.error none, d.modify id (Upload.to .committing))
  else if ¬u.Complete then (refuse .eState, d)
  else if sha.hex u.chunks.flatten ≠ u.session.expectedDigest then (refuse .eConflict, d)
  else if (d.release? u.session.ns u.session.name u.session.version).isSome then
    (refuse .eExists, d)
  else if maxRowid ≤ d.issued then (refuse .eIo, d.modify id (Upload.to .committing))
  else
    let r := u.release now (d.issued + 1)
    (.ok (r.info sha),
      { d.modify id (Upload.to .completed) with
        releases := d.releases ++ [r], issued := d.issued + 1 })

def Depot.commit (sha : Sha256) (env : CallEnv) (id : Bytes) (d : Depot) :
    Reply ArtifactInfo × Depot :=
  let d := d.expireIfDue env.now id
  match d.upload? id with
  | none => (refuse .eNotfound, d)
  | some u =>
    if u.session.state = .expired then (refuse .eExpired, d)
    else if u.session.state ≠ .open then (refuse .eState, d)
    else d.publish sha env.now id u

def Depot.abort (env : CallEnv) (id : Bytes) (d : Depot) : Reply Unit × Depot :=
  match d.upload? id with
  | none => (refuse .eNotfound, d)
  | some u =>
    if u.session.state.live then (.ok (), d.settle env.now (d.modify id (Upload.close .aborted)))
    else (.ok (), d)

def Depot.delete (env : CallEnv) (ns name version : Bytes) (d : Depot) : Reply Int64 × Depot :=
  match d.release? ns name version with
  | none => (refuse .eNotfound, d)
  | some r =>
    let d' := { d with releases := Table.delete (·.row.id == r.row.id) d.releases }
    (.ok (Int64.ofNat (d.dropped d').length), d.settle env.now d')

/-- The protection period of this garbage is over. -/
def isOld (cfg : StorageConfig) (now : Int64) (g : Bytes × Int64) : Bool :=
  decide (g.2 ≤ now - cfg.gcGraceSeconds.toInt64)

def Depot.collect (cfg : StorageConfig) (env : CallEnv) (dryRun : Bool) (d : Depot) :
    Reply GcReport × Depot :=
  let old := d.garbage.filter (isOld cfg env.now)
  (.ok ⟨Int64.ofNat d.garbage.length, Int64.ofNat old.length,
      Int64.ofNat (old.map (·.1.length)).sum⟩,
    if dryRun then d
    else { d with garbage := d.garbage.filter fun g => !isOld cfg env.now g })

/-- What a maintenance does to an upload. -/
def Upload.maintain (now : Int64) (u : Upload) : Upload :=
  if isOverdue now u.session then u.close .expired
  else if isCommitting u.session then u.to .open else u

def Depot.maintain (env : CallEnv) (d : Depot) : Reply RecoveryReport × Depot :=
  (.ok ⟨0, d.uploads.countP (isOverdue env.now ·.session),
      d.uploads.countP (isCommitting ·.session)⟩,
    d.settle env.now { d with uploads := d.uploads.map (Upload.maintain env.now) })

def Depot.open (cfg : StorageConfig) (env : CallEnv) (d : Depot) : Reply Unit × Depot :=
  match checkConfig cfg with
  | .error e => (.error e.status?, d)
  | .ok () => (.ok (), (d.maintain env).2)

def Depot.show (sha : Sha256) (ns name version : Bytes) (d : Depot) : Reply ArtifactInfo :=
  match d.release? ns name version with
  | none => refuse .eNotfound
  | some r => .ok (r.info sha)

/-- The bytes of the range, as far as the artifact reaches. -/
def Depot.read (ns name version : Bytes) (offset length : UInt64) (d : Depot) : Reply Bytes :=
  match d.release? ns name version with
  | none => refuse .eNotfound
  | some r =>
    if r.row.size < offset then refuse .eRange
    else .ok ((r.chunks.flatten.drop offset.toNat).take length.toNat)

def Depot.list (ns name : Option Bytes) (limit offset : Int64) (d : Depot) :
    Reply (List ArtifactInfo) :=
  if limit < 0 ∨ offset < 0 then refuse .eArg
  else
    let found := (d.releases.map (·.row)).filter fun a =>
      ns.all (· == a.ns) && name.all (· == a.name)
    let sorted := found.insertionSort fun a b => b.createdAt.toInt < a.createdAt.toInt ∨
      b.createdAt.toInt = a.createdAt.toInt ∧ b.id ≤ a.id
    .ok (((sorted.drop offset.toInt.toNat).take limit.toInt.toNat).map (·.info []))

/-- The newest first; of those of one moment the oldest upload, or in a state the next to expire. -/
def Depot.sessions (state : Option SessionState) (d : Depot) : List SessionInfo :=
  let opened := d.uploads.map (·.session)
  let rows := state.elim opened fun state =>
    (opened.filter (·.state == state)).insertionSort fun a b =>
      a.expiresAt.toInt ≤ b.expiresAt.toInt
  rows.insertionSort fun a b => b.createdAt.toInt ≤ a.createdAt.toInt

def Depot.usedBytes (d : Depot) : Reply UInt64 :=
  if 2^63 ≤ d.used then refuse .eIo else .ok (UInt64.ofNat d.used)

def Depot.progress (id : Bytes) (d : Depot) : Reply SessionProgress :=
  match d.upload? id with
  | none => refuse .eNotfound
  | some u =>
    .ok { chunkCount := chunkCount u.session,
          presentOrdinals := u.sorted.map (·.ordinal.toUInt64) }

end ForgeRelay
