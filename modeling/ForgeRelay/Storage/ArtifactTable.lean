import ForgeRelay.Storage.Steps

/-!
# What the calls do to the table of artifacts

A commit publishes at most the artifact of its session, where none has the reference; a deletion
removes at most the artifact that it finds; and every other call leaves the table alone.
-/

namespace ForgeRelay

open Program Prog

/-- The table of artifacts is as before. -/
structure SameTable (s s' : Store) : Prop where
  artifact : s'.db.artifact = s.db.artifact
  artifactSeq : s'.db.artifactSeq = s.db.artifactSeq

theorem SameTable.refl (s : Store) : SameTable s s := ⟨rfl, rfl⟩

theorem SameTable.trans {a b c : Store} (h : SameTable a b) (h' : SameTable b c) :
    SameTable a c :=
  ⟨h'.artifact.trans h.artifact, h'.artifactSeq.trans h.artifactSeq⟩

theorem SameTable.of_db {s s' : Store} (h : s'.db = s.db) : SameTable s s' :=
  ⟨congrArg _ h, congrArg _ h⟩

/-- The keys of the table, and how its ids are assigned. -/
structure ArtifactKeys (db : Db) : Prop where
  ids : (db.artifact.map (·.id)).Nodup
  refs : (db.artifact.map (·.ref)).Nodup
  bound : ∀ a ∈ db.artifact, a.id ≤ db.artifactSeq

theorem RowsInv.keys {sha : Sha256} {contents : Set Bytes} {db : Db} (h : RowsInv sha contents db) :
    ArtifactKeys db :=
  ⟨h.artifactKeys, h.artifactRefs, h.artifactIds⟩

theorem SameTable.keys {s s' : Store} (h : SameTable s s') (hkeys : ArtifactKeys s.db) :
    ArtifactKeys s'.db := by
  obtain ⟨hids, hrefs, hbound⟩ := hkeys
  rw [← h.artifact] at hids hrefs hbound
  rw [← h.artifactSeq] at hbound
  exact ⟨hids, hrefs, hbound⟩

private theorem admits_of_sameTable {B : Bound Store Error}
    (hsame : ∀ {s s'}, SameTable s s' → B.rel s s') (hinv : ∀ s, B.inv s) (herr : ∀ e, B.err e)
    (now : Int64) : Admits now B (fun _ => True) fun _ => True where
  fr _ _ _ := herr _
  reserve := herr _
  files _ hdb := ⟨hsame (.of_db hdb), hinv _⟩
  insertChunk {s row} _ _ _ := by
    refine ⟨hsame ?_, hinv _⟩
    unfold Db.insertChunkOrIgnore
    split <;> exact ⟨rfl, rfl⟩
  reactivate _ := ⟨hsame ⟨rfl, rfl⟩, hinv _⟩
  markPending _ := ⟨hsame ⟨rfl, rfl⟩, hinv _⟩
  deleteChunk _ := ⟨hsame ⟨rfl, rfl⟩, hinv _⟩
  setSessionState _ _ := ⟨hsame ⟨rfl, rfl⟩, hinv _⟩
  insertSession _ _ hdb := ⟨hsame (by rw [Db.insertSession_ok hdb]; exact ⟨rfl, rfl⟩), hinv _⟩
  deleteParts _ := ⟨hsame ⟨rfl, rfl⟩, hinv _⟩
  insertPart _ _ _ hdb := ⟨hsame (by rw [Db.insertPart_ok hdb]; exact ⟨rfl, rfl⟩), hinv _⟩
  insertArtifactChunk _ _ hdb :=
    ⟨hsame (by rw [Db.insertArtifactChunk_ok hdb]; exact ⟨rfl, rfl⟩), hinv _⟩
  sessions _ _ _ := trivial
  parts _ _ _ := trivial
  dataLength _ _ _ := trivial

/-- Steps that leave the table alone. -/
def sameTable : Bound Store Error :=
  ⟨fun _ => True, SameTable, fun _ => True, .refl, .trans⟩

theorem sameTable_admits (now : Int64) : Admits now sameTable (fun _ => True) fun _ => True :=
  admits_of_sameTable id (fun _ => trivial) (fun _ => trivial) now

/-- The session has been published. -/
structure Published (now : Int64) (session : SessionInfo) (s s' : Store) : Prop where
  free : ∀ a ∈ s.db.artifact, a.ref ≠ (session.artifactRow now).ref
  artifact : s'.db.artifact =
    s.db.artifact ++ [{ session.artifactRow now with id := s.db.artifactSeq + 1 }]
  artifactSeq : s'.db.artifactSeq = s.db.artifactSeq + 1

theorem Published.keys {now : Int64} {session : SessionInfo} {s s' : Store}
    (h : Published now session s s') (hkeys : ArtifactKeys s.db) : ArtifactKeys s'.db := by
  refine ⟨?_, ?_, fun a ha => ?_⟩
  · rw [h.artifact]
    refine Table.nodup_append hkeys.ids ?_
    simp only [List.mem_map, not_exists, not_and]
    intro a ha hid
    have hle := hkeys.bound a ha
    omega
  · rw [h.artifact]
    refine Table.nodup_append hkeys.refs ?_
    simp only [List.mem_map, not_exists, not_and]
    exact h.free
  · rw [h.artifact] at ha
    rw [h.artifactSeq]
    rcases List.mem_append.mp ha with ha | ha
    · exact (hkeys.bound a ha).trans (Nat.le_succ _)
    · rw [List.mem_singleton.mp ha]

/-- Steps of which at most one publishes the session: then its reference is taken. -/
def publication (now : Int64) (session : SessionInfo) : Bound Store Error where
  inv _ := True
  rel s s' := SameTable s s' ∨ Published now session s s'
  err _ := True
  refl s := .inl (.refl s)
  trans {a b c} hab hbc := by
    rcases hab with hab | hab <;> rcases hbc with hbc | hbc
    · exact .inl (hab.trans hbc)
    · refine .inr ⟨fun r hr => hbc.free r (hab.artifact ▸ hr), ?_, ?_⟩
      · rw [hbc.artifact, hab.artifact, hab.artifactSeq]
      · rw [hbc.artifactSeq, hab.artifactSeq]
    · exact .inr ⟨hab.free, hbc.artifact.trans hab.artifact, hbc.artifactSeq.trans hab.artifactSeq⟩
    · have hnew : { session.artifactRow now with id := a.db.artifactSeq + 1 } ∈ b.db.artifact := by
        rw [hab.artifact]
        exact List.mem_append_right _ (List.mem_singleton_self _)
      exact absurd rfl (hbc.free { session.artifactRow now with id := a.db.artifactSeq + 1 } hnew)

private theorem publication_admits (now : Int64) (session : SessionInfo) :
    Admits now (publication now session) (fun _ => True) fun _ => True :=
  admits_of_sameTable Or.inl (fun _ => trivial) (fun _ => trivial) now

private theorem publication_admitsArtifact (now : Int64) (session : SessionInfo) :
    AdmitsArtifact now (publication now session) session := by
  intro s id db _ hdb
  have hfree : ∀ a ∈ s.db.artifact, a.ref ≠ (session.artifactRow now).ref := by
    intro a ha href
    unfold Db.insertArtifact at hdb
    rw [if_pos (List.any_eq_true.mpr ⟨a, ha, ArtifactRow.hasRef_iff.mpr href⟩)] at hdb
    cases hdb
  obtain ⟨rfl, rfl⟩ := Db.insertArtifact_ok hdb
  exact ⟨.inr ⟨hfree, rfl, rfl⟩, trivial⟩

theorem commitSession_table (sha : Sha256) (env : CallEnv) (sessionId : Bytes) (s : Store) :
    SameTable s ((commitSession sha env sessionId).run s).2 ∨
      ∃ session, s.db.session? sessionId = some session ∧
        Published env.now session s ((commitSession sha env sessionId).run s).2 := by
  rw [commitSession_eq, loadSession, Prog.run_bind, Prog.run_bind, run_select]
  cases hfound : s.db.session? sessionId with
  | none => exact .inl (.refl s)
  | some session =>
    have hcommit := (publication_admits env.now session).commitLoaded sha sessionId
      (publication_admitsArtifact env.now session)
    exact (hcommit.run (s := s) trivial).1.1.imp_right fun h => ⟨session, rfl, h⟩

/-- The rows with this id have been deleted. -/
structure Deleted (id : Nat) (s s' : Store) : Prop where
  artifact : s'.db.artifact = Table.delete (·.id == id) s.db.artifact
  artifactSeq : s'.db.artifactSeq = s.db.artifactSeq

theorem Deleted.keys {id : Nat} {s s' : Store} (h : Deleted id s s') (hkeys : ArtifactKeys s.db) :
    ArtifactKeys s'.db := by
  refine ⟨?_, ?_, fun a ha => ?_⟩
  · rw [h.artifact]
    exact Table.nodup_delete hkeys.ids
  · rw [h.artifact]
    exact Table.nodup_delete hkeys.refs
  · rw [h.artifact] at ha
    rw [h.artifactSeq]
    exact hkeys.bound a (Table.mem_delete.mp ha).1

/-- Steps that delete at most the rows with this id. -/
def deletion (id : Nat) : Bound Store Error where
  inv _ := True
  rel s s' := SameTable s s' ∨ Deleted id s s'
  err _ := True
  refl s := .inl (.refl s)
  trans {a b c} hab hbc := by
    rcases hab with hab | hab <;> rcases hbc with hbc | hbc
    · exact .inl (hab.trans hbc)
    · exact .inr ⟨by rw [hbc.artifact, hab.artifact], hbc.artifactSeq.trans hab.artifactSeq⟩
    · exact .inr ⟨hbc.artifact.trans hab.artifact, hbc.artifactSeq.trans hab.artifactSeq⟩
    · refine .inr ⟨?_, hbc.artifactSeq.trans hab.artifactSeq⟩
      rw [hbc.artifact, hab.artifact, Table.delete, Table.delete, List.filter_filter]
      simp

theorem deleteArtifact_table (env : CallEnv) (ns name version : Bytes) (s : Store) :
    SameTable s ((deleteArtifact env ns name version).run s).2 ∨
      ∃ row, s.db.artifact? ns name version = some row ∧
        Deleted row.id s ((deleteArtifact env ns name version).run s).2 := by
  rw [deleteArtifact, tx, transaction, run_lift, run_bind, run_select]
  cases hfound : s.db.artifact? ns name version with
  | none => exact .inl (.refl s)
  | some row =>
    have hadmits : Admits env.now (deletion row.id) (fun _ => True) fun _ => True :=
      admits_of_sameTable Or.inl (fun _ => trivial) (fun _ => trivial) env.now
    have hbody : Stays (deletion row.id) (do
        let manifest ← select (·.manifest row.id)
        exec (·.deleteArtifact row.id)
        let marked ← markAllDeleted env.now (manifest.map (·.digest))
        return Int64.ofNat marked) :=
      .seq (within_select _) fun _ => .seq (within_exec fun _ => ⟨.inr ⟨rfl, rfl⟩, trivial⟩)
        fun _ => .seq (hadmits.markAllDeleted _) fun _ => .pure trivial
    have hrun := (hbody.run (s := s) trivial).1.1
    dsimp only
    split
    · rename_i hok
      rw [hok] at hrun
      exact hrun.imp_right fun h => ⟨row, rfl, h⟩
    · exact .inl (.refl s)

end ForgeRelay
