import ForgeRelay.Storage.Durability
import ForgeRelay.Storage.SessionSteps
import ForgeRelay.Storage.Steps

/-!
# Ordinals of parts

`put_chunk` admits an ordinal by the number of chunks of the session that it has loaded. The size
and the chunk size of a session never change, so at any time the ordinal of a part is below the
number that is computed anew.
-/

namespace ForgeRelay

open Program Prog

/-- The session has a chunk with this ordinal. -/
def SessionInfo.Expects (session : SessionInfo) (ordinal : Int64) : Prop :=
  ∃ n : UInt64, ordinal = n.toInt64 ∧ n < chunkCount session

/-- The ids of sessions are unique, their chunk sizes are those of checked configurations, and
every part is one that its session expects. -/
structure Db.Ranged (db : Db) : Prop where
  keys : db.SessionKeys
  chunkSize : ∀ row ∈ db.uploadSession, 1024 * 1024 ≤ row.chunkSize.toNat
  parts : ∀ part ∈ db.uploadPart, ∃ row ∈ db.uploadSession, row.id = part.sessionId ∧
    row.Expects part.ordinal

namespace Db.Ranged

variable {db db' : Db}

theorem empty : Db.empty.Ranged := ⟨List.nodup_nil, nofun, nofun⟩

theorem of_same (h : db.Ranged) (hsessions : db'.uploadSession = db.uploadSession)
    (hparts : db'.uploadPart = db.uploadPart) : db'.Ranged := by
  refine ⟨?_, hsessions ▸ h.chunkSize, ?_⟩
  · rw [SessionKeys, hsessions]
    exact h.keys
  · rw [hsessions, hparts]
    exact h.parts

theorem setSessionState (h : db.Ranged) (cond : SessionInfo → Bool) (state : SessionState) :
    (db.setSessionState cond state).Ranged := by
  have hrows {row : SessionInfo} (hrow : row ∈ db.uploadSession) :
      ∃ row' ∈ (db.setSessionState cond state).uploadSession, row'.id = row.id ∧
        row'.chunkSize = row.chunkSize ∧ chunkCount row' = chunkCount row := by
    refine ⟨_, Table.mem_update.mpr ⟨row, hrow, rfl⟩, ?_⟩
    split <;> exact ⟨rfl, rfl, rfl⟩
  refine ⟨?_, fun row hrow => ?_, fun part hpart => ?_⟩
  · have hids : (db.setSessionState cond state).uploadSession.map (·.id) =
        db.uploadSession.map (·.id) :=
      Table.map_update (f := fun s : SessionInfo => { s with state := state }) _ (fun _ => rfl) _
    rw [SessionKeys, hids]
    exact h.keys
  · obtain ⟨row', hrow', rfl⟩ := Table.mem_update.mp hrow
    split <;> exact h.chunkSize row' hrow'
  · obtain ⟨row, hrow, hid, n, hn, hlt⟩ := h.parts part hpart
    obtain ⟨row', hrow', hid', -, hcount⟩ := hrows hrow
    exact ⟨row', hrow', hid'.trans hid, n, hn, hcount ▸ hlt⟩

theorem deleteParts (h : db.Ranged) (sessionId : Bytes) : (db.deleteParts sessionId).Ranged :=
  ⟨h.keys, h.chunkSize, fun part hpart => h.parts part (Table.mem_delete.mp hpart).1⟩

theorem insertSession {row : SessionInfo} (h : db.Ranged)
    (hrow : 1024 * 1024 ≤ row.chunkSize.toNat) (hdb : db.insertSession row = .ok db') :
    db'.Ranged := by
  have hnew : row.id ∉ db.uploadSession.map (·.id) := by
    unfold Db.insertSession at hdb
    split at hdb
    · cases hdb
    · rename_i hnone
      refine fun hmem => hnone ?_
      obtain ⟨row', hrow', hid⟩ := List.mem_map.mp hmem
      exact List.any_eq_true.mpr ⟨row', hrow', by simpa using hid⟩
  rw [Db.insertSession_ok hdb]
  refine ⟨Table.nodup_append h.keys hnew, fun row' hrow' => ?_, fun part hpart => ?_⟩
  · rcases List.mem_append.mp hrow' with hrow' | hrow'
    · exact h.chunkSize row' hrow'
    · exact List.mem_singleton.mp hrow' ▸ hrow
  · obtain ⟨row', hrow', hexpects⟩ := h.parts part hpart
    exact ⟨row', List.mem_append_left _ hrow', hexpects⟩

theorem insertPart {row : PartRow} (h : db.Ranged)
    (hexpects : ∀ session ∈ db.uploadSession, session.id = row.sessionId →
      session.Expects row.ordinal)
    (hdb : db.insertPart row = .ok db') : db'.Ranged := by
  obtain ⟨session, hsession, hid⟩ : ∃ session ∈ db.uploadSession, session.id = row.sessionId := by
    unfold Db.insertPart at hdb
    split at hdb
    · cases hdb
    split at hdb
    · rename_i hfound
      obtain ⟨session, hsession, hid⟩ := List.any_eq_true.mp hfound
      exact ⟨session, hsession, by simpa using hid⟩
    · cases hdb
  rw [Db.insertPart_ok hdb]
  refine ⟨h.keys, h.chunkSize, fun part hpart => ?_⟩
  rcases List.mem_append.mp hpart with hpart | hpart
  · exact h.parts part hpart
  · rw [List.mem_singleton.mp hpart]
    exact ⟨session, hsession, hid, hexpects session hsession hid⟩

end Db.Ranged

/-- The bound that keeps the ordinals in range while all rows of sessions meet `VT`. -/
def ranged (VT : SessionInfo → Prop) : Bound Store Error where
  inv s := s.db.Ranged ∧ ∀ row ∈ s.db.uploadSession, VT row
  rel _ _ := True
  err _ := True
  refl _ := trivial
  trans _ _ := trivial

section

variable {VT : SessionInfo → Prop}

private theorem ranged_step {s s' : Store} (hs : (ranged VT).inv s)
    (hsessions : s'.db.uploadSession = s.db.uploadSession)
    (hparts : s'.db.uploadPart = s.db.uploadPart) : (ranged VT).Step s s' :=
  ⟨trivial, hs.1.of_same hsessions hparts, hsessions ▸ hs.2⟩

private theorem ranged_spares (hstate : ∀ row state, VT row → VT { row with state := state })
    (now : Int64) : SparesParts now (ranged VT)
      (fun session => VT session ∧ 1024 * 1024 ≤ session.chunkSize.toNat) fun _ => True where
  fr _ _ _ := trivial
  reserve := trivial
  scratch hs hdb _ := ranged_step hs (by rw [hdb]) (by rw [hdb])
  insertChunk {s row} hs _ _ := by
    refine ranged_step hs ?_ ?_ <;> exact by unfold Db.insertChunkOrIgnore; split <;> rfl
  reactivate hs := ranged_step hs rfl rfl
  markPending hs := ranged_step hs rfl rfl
  setSessionState hs _ := by
    refine ⟨trivial, hs.1.setSessionState _ _, fun row hrow => ?_⟩
    obtain ⟨row', hrow', rfl⟩ := Table.mem_update.mp hrow
    split
    · exact hstate _ _ (hs.2 row' hrow')
    · exact hs.2 row' hrow'
  insertSession {s row db} hs hrow hdb := by
    refine ⟨trivial, hs.1.insertSession hrow.2 hdb, ?_⟩
    rw [Db.insertSession_ok hdb]
    exact List.forall_mem_append.mpr ⟨hs.2, List.forall_mem_singleton.mpr hrow.1⟩
  deleteParts hs := ⟨trivial, hs.1.deleteParts _, hs.2⟩
  sessions hs row hrow := ⟨hs.2 row hrow, hs.1.chunkSize row hrow⟩
  parts _ _ _ := trivial
  dataLength _ _ _ := trivial

private theorem ranged_allows (hstate : ∀ row state, VT row → VT { row with state := state })
    (hcount : ∀ {row row'}, VT row → VT row' → row.id = row'.id → chunkCount row = chunkCount row')
    (now : Int64) : Allows now (ranged VT)
      (fun session => VT session ∧ 1024 * 1024 ≤ session.chunkSize.toNat) fun _ => True where
  toSparesParts := ranged_spares hstate now
  insertPart {s row db} hs _ hpart hdb := by
    refine ⟨trivial, hs.1.insertPart (fun session hsession hid => ?_) hdb, ?_⟩
    · obtain ⟨loaded, n, hloaded, hid', hn, hlt⟩ := hpart
      refine ⟨n, hn, ?_⟩
      rwa [hcount (hs.2 session hsession) hloaded.1 (hid.trans hid'.symm)]
    · rw [Db.insertPart_ok hdb]
      exact hs.2
  insertArtifactChunk hs _ hdb := by
    rw [Db.insertArtifactChunk_ok hdb]
    exact ranged_step hs rfl rfl
  files hs hdb := ranged_step hs (by rw [hdb]) (by rw [hdb])
  deleteChunk hs := ranged_step hs rfl rfl
  insertArtifact _ _ _ _ hs hdb := by
    rw [(Db.insertArtifact_ok hdb).2]
    exact ranged_step hs rfl rfl
  removeArtifact hs := ranged_step hs rfl rfl

end

/-- The rows of sessions at some time, in any state. -/
def Db.Knows (db : Db) (session : SessionInfo) : Prop :=
  ∃ row ∈ db.uploadSession, row.id = session.id ∧ chunkCount row = chunkCount session

private theorem System.Step.ranged {sha : Sha256} {interrupts : Label → Store → Prop}
    {sys sys' : System} {e : Event} (h : Step sha interrupts sys e sys')
    (hconfig : ∀ cfg, sys.config = some cfg → checkConfig cfg = .ok ())
    (hs : sys.store.db.Ranged) : sys'.store.db.Ranged := by
  have hany : SparesParts e.env.now (ForgeRelay.ranged fun _ => True) _ _ :=
    ranged_spares (fun _ _ => id) e.env.now
  have hall : Allows e.env.now (ForgeRelay.ranged sys.store.db.Knows) _ _ :=
    ranged_allows (fun _ _ => id) (fun hrow hrow' hid => by
      obtain ⟨known, hknown, hid₁, hcount⟩ := hrow
      obtain ⟨known', hknown', hid₂, hcount'⟩ := hrow'
      obtain rfl : known = known' :=
        Table.eq_of_key hs.keys hknown hknown' (hid₁.trans (hid.trans hid₂.symm))
      exact hcount.symm.trans hcount') e.env.now
  cases h with
  | «open» hexec =>
    exact ((hany.openStorage _ _ rfl).exec hexec (fun _ => trivial) ⟨hs, fun _ _ => trivial⟩).2.1
  | @call s s' cfg call env r hexec =>
    cases hcall : call.newOwner? with
    | none =>
      exact ((hall.others sha cfg env rfl hcall).exec hexec (fun _ => trivial)
        ⟨hs, fun row hrow => ⟨row, hrow, rfl, rfl⟩⟩).2.1
    | some owner =>
      cases call with
      | createSession ns name version size digest owner' =>
        have hnew : NewSessions cfg fun session => True ∧
            1024 * 1024 ≤ session.chunkSize.toNat :=
          fun _ _ _ => ⟨trivial, checkConfig_chunkSize (hconfig cfg rfl)⟩
        have hprogram : Stays (ForgeRelay.ranged fun _ => True) (Call.program sha cfg env
            (.createSession ns name version size digest owner')) :=
          .seq (hany.createSession cfg env ns name version size digest owner' hnew).stays
            fun _ => .pure trivial
        exact (hprogram.exec hexec (fun _ => trivial) ⟨hs, fun _ _ => trivial⟩).2.1
      | _ => cases hcall
  | close => exact hs

theorem System.run_ranged {sha : Sha256} {interrupts : Label → Store → Prop} {sys : System}
    {events : List Event} (hrun : Trace.Run (Step sha interrupts) .initial events sys) :
    sys.store.db.Ranged := by
  refine (hrun.invariant (I := fun sys => sys.store.db.Ranged ∧
    ∀ cfg, sys.config = some cfg → checkConfig cfg = .ok ()) ?_ ⟨.empty, nofun⟩).1
  rintro sys e sys' - ⟨hranged, hchecked⟩ hstep
  exact ⟨hstep.ranged hchecked hranged, System.run_config (.single hstep) hchecked⟩

end ForgeRelay
