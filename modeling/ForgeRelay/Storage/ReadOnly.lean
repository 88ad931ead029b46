import ForgeRelay.Storage.CommitSpecs

/-!
# Operations that only read

They leave the store as it is, whatever they return.
-/

namespace ForgeRelay

open Program

/-- A run from any store ends in that store. -/
def ReadOnly {α : Type} (p : StorageM α) : Prop := ∀ s, (p.run s).2 = s

variable {α β : Type}

namespace ReadOnly

theorem pure (a : α) : ReadOnly (Pure.pure a : StorageM α) := fun _ => rfl

theorem throw (e : Error) : ReadOnly (MonadExcept.throw e : StorageM α) := fun _ => rfl

theorem ofExcept (r : Except Error α) : ReadOnly (Prog.ofExcept r) := by
  cases r <;> exact fun _ => rfl

theorem bind {p : StorageM α} {k : α → StorageM β} (hp : ReadOnly p) (hk : ∀ a, ReadOnly (k a)) :
    ReadOnly (p >>= k) := by
  intro s
  have hstore := hp s
  rw [Prog.run_bind]
  rcases hrun : p.run s with ⟨r | a, s'⟩
  · rw [hrun] at hstore
    exact hstore
  · rw [hrun] at hstore
    exact (hk a s').trans hstore

theorem ite {c : Prop} [Decidable c] {p q : StorageM α} (hp : ReadOnly p) (hq : ReadOnly q) :
    ReadOnly (if c then p else q) := by
  split
  · exact hp
  · exact hq

theorem select (f : Db → α) : ReadOnly (select f) := fun s => by rw [run_select]

theorem query (f : Db → Except Error α) : ReadOnly (stmt fun db => (f db).map (·, db)) := by
  intro s
  rw [stmt, Prog.run_lift]
  cases f s.db <;> rfl

end ReadOnly

theorem loadSession_readOnly (sessionId : Bytes) : ReadOnly (loadSession sessionId) := by
  refine .bind (.select _) fun found => ?_
  cases found with
  | none => exact .throw _
  | some session => exact .pure _

theorem showArtifact_readOnly (ns name version : Bytes) :
    ReadOnly (showArtifact ns name version) := by
  refine .bind (.select _) fun found => ?_
  cases found with
  | none => exact .throw _
  | some row => exact .bind (.select _) fun _ => .pure _

theorem listArtifacts_readOnly (ns name : Option Bytes) (limit offset : Int64) :
    ReadOnly (listArtifacts ns name limit offset) :=
  .ite (.throw _) (.bind (.select _) fun _ => .pure _)

theorem listSessions_readOnly (state : Option SessionState) : ReadOnly (listSessions state) :=
  .select _

theorem usedBytes_readOnly : ReadOnly usedBytes := .bind (.query _) fun _ => .pure _

theorem artifactCount_readOnly : ReadOnly artifactCount := .select _

theorem sessionProgress_readOnly (sessionId : Bytes) : ReadOnly (sessionProgress sessionId) :=
  .bind (loadSession_readOnly _) fun _ => .bind (.select _) fun _ => .pure _

end ForgeRelay
