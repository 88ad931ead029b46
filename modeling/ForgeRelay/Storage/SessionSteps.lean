import ForgeRelay.Lib.Interleave
import ForgeRelay.Storage.Machine

/-!
# What single steps do to sessions

Most steps leave sessions alone. The others change the states of live sessions only, apart from
the publishing transaction, which does not look at the state of its session.
-/

namespace ForgeRelay

open Program Prog

/-- The primary key of `upload_session`. -/
def Db.SessionKeys (db : Db) : Prop := (db.uploadSession.map (·.id)).Nodup

/-- The session is OPEN or COMMITTING. -/
def Db.Live (db : Db) (sessionId : Bytes) : Prop :=
  ∃ row ∈ db.uploadSession, row.id = sessionId ∧ row.state.live = true

instance (db : Db) (sessionId : Bytes) : Decidable (db.Live sessionId) :=
  inferInstanceAs (Decidable (∃ row ∈ db.uploadSession, row.id = sessionId ∧ row.state.live = true))

/-- The session that the program commits whose next step has this label. -/
def Label.session? : Label → Option Bytes
  | .committing sessionId => some sessionId
  | _ => none

/-- The session that the program is going to commit if the count that it asks for is positive. -/
def Label.claimed? : Label → Option Bytes
  | .counting sessionId .committing => some sessionId
  | _ => none

/-- Whether the program relies on the state of a session. -/
def Label.relies (l : Label) : Bool := l.session?.isSome || l.claimed?.isSome

/-- The sessions that a step with this label aborts or expires. -/
def Label.ends : Label → SessionInfo → Prop
  | .aborting sessionId loaded, row => row.id = sessionId ∧ row.state = loaded
  | .expiring now, row => isOverdue now row = true
  | _, _ => False

/-- Sessions stay as they are, and no artifact is added. -/
structure Quiet (s s' : Store) : Prop where
  uploadSession : s'.db.uploadSession = s.db.uploadSession
  artifact : ∀ a ∈ s'.db.artifact, a ∈ s.db.artifact

/-- Rows of sessions stay and change their state only, and this only if they are live; with
`ends` given they stay live unless they are among those. Artifacts are added if `publishes`. -/
structure Lawful (ends : SessionInfo → Prop) (publishes : Prop) (s s' : Store) : Prop where
  keys : s.db.SessionKeys → s'.db.SessionKeys
  session : ∀ row ∈ s.db.uploadSession, ∃ state, { row with state := state } ∈ s'.db.uploadSession ∧
    (state = row.state ∨ row.state.live = true ∧ (state.live = true ∨ ends row))
  artifact : ∀ a ∈ s'.db.artifact, a ∈ s.db.artifact ∨ publishes

variable {ends : SessionInfo → Prop} {publishes : Prop} {s s' s'' : Store}

theorem Quiet.refl (s : Store) : Quiet s s := ⟨rfl, fun _ => id⟩

theorem Quiet.trans (h : Quiet s s') (h' : Quiet s' s'') : Quiet s s'' :=
  ⟨h'.uploadSession.trans h.uploadSession, fun a ha => h.artifact a (h'.artifact a ha)⟩

theorem Quiet.keys (h : Quiet s s') (hkeys : s.db.SessionKeys) : s'.db.SessionKeys := by
  rw [Db.SessionKeys, h.uploadSession]
  exact hkeys

theorem Quiet.live {sessionId : Bytes} (h : Quiet s s') (hlive : s.db.Live sessionId) :
    s'.db.Live sessionId := by
  rw [Db.Live, h.uploadSession]
  exact hlive

theorem Quiet.lawful (h : Quiet s s') : Lawful ends publishes s s' :=
  ⟨h.keys, fun row hrow => ⟨row.state, h.uploadSession ▸ hrow, .inl rfl⟩,
    fun a ha => .inl (h.artifact a ha)⟩

theorem Lawful.refl (s : Store) : Lawful ends publishes s s := (Quiet.refl s).lawful

theorem Lawful.mono {ends' : SessionInfo → Prop} {publishes' : Prop}
    (h : Lawful ends publishes s s') (hends : ∀ row, ends row → ends' row)
    (hpublishes : publishes → publishes') : Lawful ends' publishes' s s' := by
  refine ⟨h.keys, fun row hrow => ?_, fun a ha => (h.artifact a ha).imp_right hpublishes⟩
  obtain ⟨state, hmem, hstate⟩ := h.session row hrow
  exact ⟨state, hmem, hstate.imp_right fun hs => ⟨hs.1, hs.2.imp_right (hends row)⟩⟩

theorem Lawful.trans_quiet (h : Lawful ends publishes s s') (h' : Quiet s' s'') :
    Lawful ends publishes s s'' := by
  refine ⟨h'.keys ∘ h.keys, fun row hrow => ?_, fun a ha => h.artifact a (h'.artifact a ha)⟩
  obtain ⟨state, hmem, hstate⟩ := h.session row hrow
  exact ⟨state, h'.uploadSession ▸ hmem, hstate⟩

theorem Lawful.trans (h : Lawful (fun _ => True) publishes s s')
    (h' : Lawful (fun _ => True) publishes s' s'') :
    Lawful (fun _ => True) publishes s s'' := by
  refine ⟨h'.keys ∘ h.keys, fun row hrow => ?_, fun a ha => ?_⟩
  · obtain ⟨state, hmem, hstate⟩ := h.session row hrow
    obtain ⟨state', hmem', hstate'⟩ := h'.session _ hmem
    refine ⟨state', hmem', ?_⟩
    rcases hstate' with rfl | ⟨hlive, -⟩
    · exact hstate
    · rcases hstate with rfl | ⟨hlive', -⟩
      · exact .inr ⟨hlive, .inr trivial⟩
      · exact .inr ⟨hlive', .inr trivial⟩
  · rcases h'.artifact a ha with ha | hpublishes
    · exact h.artifact a ha
    · exact .inr hpublishes

/-- A session stays live unless it is among those that end. -/
theorem Lawful.live {sessionId : Bytes} (h : Lawful ends publishes s s')
    (hnot : ∀ row ∈ s.db.uploadSession, row.id = sessionId → ¬ ends row)
    (hlive : s.db.Live sessionId) : s'.db.Live sessionId := by
  obtain ⟨row, hrow, hid, hrowLive⟩ := hlive
  obtain ⟨state, hmem, hstate⟩ := h.session row hrow
  refine ⟨_, hmem, hid, ?_⟩
  rcases hstate with rfl | ⟨-, hstate | hends⟩
  · exact hrowLive
  · exact hstate
  · exact absurd hends (hnot row hrow hid)

theorem Lawful.terminal (h : Lawful ends publishes s s') {row : SessionInfo}
    (hrow : row ∈ s.db.uploadSession) (hdead : row.state.live = false) :
    row ∈ s'.db.uploadSession := by
  obtain ⟨state, hmem, rfl | ⟨hlive, -⟩⟩ := h.session row hrow
  · exact hmem
  · rw [hdead] at hlive
    cases hlive

private theorem Db.setSessionState_keys {db : Db} (cond : SessionInfo → Bool) (state : SessionState)
    (h : db.SessionKeys) : (db.setSessionState cond state).SessionKeys := by
  have hkeys := Table.map_update (p := cond) (f := fun r : SessionInfo => { r with state := state })
    SessionInfo.id (fun _ => rfl) db.uploadSession
  rw [Db.SessionKeys, Db.setSessionState, hkeys]
  exact h

theorem Lawful.recount (h : Lawful ends publishes s s') (changes : Nat) :
    Lawful ends publishes s { s' with changes := changes } :=
  ⟨h.keys, h.session, h.artifact⟩

theorem lawful_setSessionState {cond : SessionInfo → Bool} {state : SessionState}
    (hcond : ∀ row ∈ s.db.uploadSession, cond row = true →
      row.state.live = true ∧ (state.live = true ∨ ends row)) :
    Lawful ends publishes s { s with db := s.db.setSessionState cond state } := by
  refine ⟨s.db.setSessionState_keys cond state, fun row hrow => ?_, fun _ => .inl⟩
  by_cases hc : cond row = true
  · exact ⟨state, Table.mem_update.mpr ⟨row, hrow, if_pos hc⟩, .inr (hcond row hrow hc)⟩
  · exact ⟨row.state, Table.mem_update.mpr ⟨row, hrow, if_neg hc⟩, .inl rfl⟩

theorem lawful_insertSession {row : SessionInfo} {db : Db}
    (hinsert : s.db.insertSession row = .ok db) :
    Lawful ends publishes s { s with db := db } := by
  have hnew : row.id ∉ s.db.uploadSession.map (·.id) := by
    unfold Db.insertSession at hinsert
    split at hinsert
    · cases hinsert
    · rename_i hany
      simpa using hany
  obtain rfl := Db.insertSession_ok hinsert
  exact ⟨fun hkeys => Table.nodup_append hkeys hnew,
    fun r hr => ⟨r.state, List.mem_append_left _ hr, .inl rfl⟩, fun _ => .inl⟩

theorem Db.session?_of_mem {db : Db} (hkeys : db.SessionKeys) {row : SessionInfo}
    (hrow : row ∈ db.uploadSession) : db.session? row.id = some row := by
  cases hfind : db.session? row.id with
  | none => simpa using List.find?_eq_none.mp hfind row hrow
  | some found =>
    obtain ⟨hmem, hid⟩ := Db.session?_some hfind
    rw [Table.eq_of_key hkeys hmem hrow hid]

end ForgeRelay
