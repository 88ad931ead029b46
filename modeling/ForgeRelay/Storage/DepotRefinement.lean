import ForgeRelay.Lib.Trace
import ForgeRelay.Storage.DepotArtifacts

/-!
# Storage answers as a depot

Whatever is asked of storage, one request after the other: the tables, the chunk files and the
marking of chunks give the answers that a depot gives, which has none of them.
-/

namespace ForgeRelay

open Program Prog

/-- An operation of `Storage`. -/
inductive StorageRequest
  | «open»
  | createSession (ns name version : Bytes) (expectedSize : UInt64) (expectedDigest owner : Bytes)
  | putChunk (sessionId : Bytes) (ordinal : UInt64) (data : Bytes)
  | commitSession (sessionId : Bytes)
  | abortSession (sessionId : Bytes)
  | deleteArtifact (ns name version : Bytes)
  | collectGarbage (dryRun : Bool)
  | runMaintenance
  | showArtifact (ns name version : Bytes)
  | readArtifact (ns name version : Bytes) (offset length : UInt64)
  | readArtifactSlice (ns name version : Bytes) (offset maxLen : UInt64)
  | listArtifacts (ns name : Option Bytes) (limit offset : Int64)
  | listSessions (state : Option SessionState)
  | usedBytes
  | artifactCount
  | sessionProgress (sessionId : Bytes)

/-- What an operation returns. Of a slice, all that the sink gets and the number of bytes sent. -/
inductive Answer
  | done
  | session (info : SessionInfo)
  | accepted (accept : ChunkAccept)
  | artifact (info : ArtifactInfo)
  | marked (count : Int64)
  | collected (report : GcReport)
  | recovered (report : RecoveryReport)
  | bytes (data : Bytes)
  | slice (data : Bytes) (sent : Nat)
  | artifacts (infos : List ArtifactInfo)
  | sessions (infos : List SessionInfo)
  | used (bytes : UInt64)
  | count (artifacts : Int64)
  | progress (progress : SessionProgress)
  deriving DecidableEq

/-- A request, the configuration of the storage that is asked, and what the world outside gives. -/
structure Asked where
  cfg : StorageConfig
  env : CallEnv
  request : StorageRequest

section

variable {α : Type}

/-- The answer of a run, with the status of a failure. -/
def answered (answer : α → Answer) (r : Except Error α × Store) : Reply Answer × Store :=
  ((r.1.mapError Error.status?).map answer, r.2)

/-- The answer of a depot. -/
def given (answer : α → Answer) (r : Reply α × Depot) : Reply Answer × Depot :=
  (r.1.map answer, r.2)

private theorem answered_map {β : Type} (f : β → α) (answer : α → Answer)
    (r : Except Error β × Store) :
    answered answer (r.map (Except.map f) id) = answered (fun b => answer (f b)) r := by
  obtain ⟨(e | b), s⟩ := r <;> rfl

private theorem given_map {β : Type} (f : β → α) (answer : α → Answer) (r : Reply β) (d : Depot) :
    given answer (r.map f, d) = given (fun b => answer (f b)) (r, d) := by
  cases r <;> rfl

end

/-- What storage does with a request. -/
def Asked.onStore (sha : Sha256) (a : Asked) (s : Store) : Reply Answer × Store :=
  match a.request with
  | .open => answered (fun _ => .done) ((openStorage a.cfg a.env).run s)
  | .createSession ns name version size digest owner =>
    answered .session ((createSession a.cfg a.env ns name version size digest owner).run s)
  | .putChunk id ordinal data => answered .accepted ((putChunk sha a.env id ordinal data).run s)
  | .commitSession id => answered .artifact ((commitSession sha a.env id).run s)
  | .abortSession id => answered (fun _ => .done) ((abortSession a.env id).run s)
  | .deleteArtifact ns name version =>
    answered .marked ((deleteArtifact a.env ns name version).run s)
  | .collectGarbage dryRun => answered .collected ((collectGarbage a.cfg a.env dryRun).run s)
  | .runMaintenance => answered .recovered ((runMaintenance a.env).run s)
  | .showArtifact ns name version => answered .artifact ((showArtifact ns name version).run s)
  | .readArtifact ns name version offset length =>
    answered .bytes ((readArtifact ns name version offset length).run s)
  | .readArtifactSlice ns name version offset maxLen =>
    answered (fun (pieces, sent) => .slice pieces.flatten sent.toNat)
      ((readArtifactSlice ns name version offset maxLen).run s)
  | .listArtifacts ns name limit offset =>
    answered .artifacts ((listArtifacts ns name limit offset).run s)
  | .listSessions state => answered .sessions ((listSessions state).run s)
  | .usedBytes => answered .used (usedBytes.run s)
  | .artifactCount => answered .count (artifactCount.run s)
  | .sessionProgress id => answered .progress ((sessionProgress id).run s)

/-- What a depot does with it. -/
def Asked.onDepot (sha : Sha256) (a : Asked) (d : Depot) : Reply Answer × Depot :=
  match a.request with
  | .open => given (fun _ => .done) (d.open a.cfg a.env)
  | .createSession ns name version size digest owner =>
    given .session (d.create a.cfg a.env ns name version size digest owner)
  | .putChunk id ordinal data => given .accepted (d.put sha a.env id ordinal data)
  | .commitSession id => given .artifact (d.commit sha a.env id)
  | .abortSession id => given (fun _ => .done) (d.abort a.env id)
  | .deleteArtifact ns name version => given .marked (d.delete a.env ns name version)
  | .collectGarbage dryRun => given .collected (d.collect a.cfg a.env dryRun)
  | .runMaintenance => given .recovered (d.maintain a.env)
  | .showArtifact ns name version => given .artifact (d.show sha ns name version, d)
  | .readArtifact ns name version offset length =>
    given .bytes (d.read ns name version offset length, d)
  | .readArtifactSlice ns name version offset maxLen =>
    given (fun data => .slice data data.length) (d.read ns name version offset maxLen, d)
  | .listArtifacts ns name limit offset => given .artifacts (d.list ns name limit offset, d)
  | .listSessions state => given .sessions (.ok (d.sessions state), d)
  | .usedBytes => given .used (d.usedBytes, d)
  | .artifactCount => given .count (.ok (Int64.ofNat d.releases.length), d)
  | .sessionProgress id => given .progress (d.progress id, d)

/-- An open storage has a configuration that passed the checks, and the contents of chunks are
among these. -/
def Asked.Admissible (contents : Set Bytes) (a : Asked) : Prop :=
  match a.request with
  | .open => True
  | .putChunk _ _ data => checkConfig a.cfg = .ok () ∧ data ∈ contents
  | _ => checkConfig a.cfg = .ok ()

variable {sha : Sha256} {contents : Set Bytes} {d : Depot} {s : Store}

private theorem Matches.answered {α : Type} {r : Except Error α × Store} {r' : Reply α × Depot}
    (h : Matches sha contents r r') (answer : α → Answer) :
    ∃ o s' d', answered answer r = (o, s') ∧ given answer r' = (o, d') ∧
      Stores sha contents d' s' := by
  refine ⟨_, _, _, rfl, ?_, h.stores⟩
  rw [given, h.reply]

private theorem Asked.matches (hsha : sha.NoCollision contents) (a : Asked)
    (ha : a.Admissible contents) (h : Stores sha contents d s) :
    ∃ o s' d', a.onStore sha s = (o, s') ∧ a.onDepot sha d = (o, d') ∧
      Stores sha contents d' s' := by
  obtain ⟨cfg, env, request⟩ := a
  cases request with
  | «open» => exact (openStorage_matches h hsha cfg env).answered _
  | createSession ns name version size digest owner =>
    exact (createSession_matches h hsha ha ns name version size digest owner).answered _
  | putChunk id ordinal data => exact (putChunk_matches h hsha ha.2).answered _
  | commitSession id => exact (commitSession_matches h hsha env id).answered _
  | abortSession id => exact (abortSession_matches h hsha env id).answered _
  | deleteArtifact ns name version =>
    exact (deleteArtifact_matches h hsha env ns name version).answered _
  | collectGarbage dryRun => exact (collectGarbage_matches h hsha cfg env dryRun).answered _
  | runMaintenance => exact (runMaintenance_matches h hsha env).answered _
  | showArtifact ns name version => exact (showArtifact_matches h ns name version).answered _
  | readArtifact ns name version offset length =>
    exact (readArtifact_matches h hsha ns name version offset length).answered _
  | readArtifactSlice ns name version offset maxLen =>
    obtain ⟨o, s', d', hstore, hdepot, hstores⟩ :=
      (readArtifactSlice_matches h hsha ns name version offset maxLen).answered
        fun (data, sent) => .slice data sent
    rw [answered_map] at hstore
    rw [given_map] at hdepot
    exact ⟨o, s', d', hstore, hdepot, hstores⟩
  | listArtifacts ns name limit offset =>
    exact (listArtifacts_matches h ns name limit offset).answered _
  | listSessions state => exact (listSessions_matches h state).answered _
  | usedBytes => exact (usedBytes_matches h hsha).answered _
  | artifactCount => exact (artifactCount_matches h).answered _
  | sessionProgress id => exact (sessionProgress_matches h id).answered _

private theorem storage_simulates (hsha : sha.NoCollision contents) :
    Answers.Simulates (Asked.onStore sha) (Asked.onDepot sha) (Asked.Admissible contents)
      (fun s d => Stores sha contents d s) :=
  .of_step fun a _ _ ha h => a.matches hsha ha h

/-- Storage cannot be told from a depot, as long as no step fails by itself: the files, the database
and the memory give what they are asked for. -/
theorem storage_refines_depot (hsha : sha.NoCollision contents) {requests : List Asked}
    (hrequests : ∀ a ∈ requests, a.Admissible contents) :
    (Answers.run (Asked.onStore sha) requests .empty).1 =
        (Answers.run (Asked.onDepot sha) requests .empty).1 ∧
      Stores sha contents (Answers.run (Asked.onDepot sha) requests .empty).2
        (Answers.run (Asked.onStore sha) requests .empty).2 :=
  (storage_simulates hsha).run hrequests (.empty sha contents)

/-- The content `a` is uploaded, published, read and deleted. -/
def sampleAsked : List Asked :=
  [⟨sampleConfig, sampleEnv 0, .open⟩,
    ⟨sampleConfig, sampleEnv 0, .createSession (ascii "team") (ascii "app") (ascii "1.0") 1
      (sampleSha.hex (ascii "a")) (ascii "alice")⟩,
    ⟨sampleConfig, sampleEnv 1, .putChunk (ascii "s1") 0 (ascii "a")⟩,
    ⟨sampleConfig, sampleEnv 2, .commitSession (ascii "s1")⟩,
    ⟨sampleConfig, sampleEnv 3, .readArtifact (ascii "team") (ascii "app") (ascii "1.0") 0 9⟩,
    ⟨sampleConfig, sampleEnv 4, .usedBytes⟩,
    ⟨sampleConfig, sampleEnv 5, .deleteArtifact (ascii "team") (ascii "app") (ascii "1.0")⟩,
    ⟨sampleConfig, sampleEnv 6, .usedBytes⟩]

/-- What is read, and how much is used until the artifact is deleted. -/
theorem storage_refines_depot_sample :
    (Answers.run (Asked.onStore sampleSha) sampleAsked .empty).1.drop 4 =
      [.ok (.bytes (ascii "a")), .ok (.used 1), .ok (.marked 1), .ok (.used 0)] := by
  have hsha : sampleSha.NoCollision {ascii "a"} := Set.subsingleton_singleton.injOn _
  have hrequests : ∀ a ∈ sampleAsked, a.Admissible {ascii "a"} := by
    have hcfg : checkConfig sampleConfig = .ok () := by decide +kernel
    simp [sampleAsked, Asked.Admissible, hcfg]
  rw [(storage_refines_depot hsha hrequests).1]
  decide +kernel

end ForgeRelay
