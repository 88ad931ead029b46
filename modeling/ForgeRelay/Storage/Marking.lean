import ForgeRelay.Storage.Logic

/-!
# The shared parts of the operations

Looking up sessions, marking chunks, expiring sessions, and writing chunk files: each keeps the
invariant and the published artifacts.
-/

namespace ForgeRelay

open Program Prog

/-- Neither an artifact nor a manifest differs. -/
structure SameArtifacts (db₀ db : Db) : Prop where
  artifact : db.artifact = db₀.artifact
  artifactSeq : db.artifactSeq = db₀.artifactSeq
  artifactChunk : db.artifactChunk = db₀.artifactChunk

/-- Artifacts come with new ids; those that are `gone` may go, the others stay as they are. -/
structure Evolves (gone : ArtifactRow → Prop) (db₀ db : Db) : Prop where
  artifactSeq : db₀.artifactSeq ≤ db.artifactSeq
  keeps : ∀ a ∈ db₀.artifact, ¬ gone a → a ∈ db.artifact
  old : ∀ a ∈ db.artifact, a.id ≤ db₀.artifactSeq →
    a ∈ db₀.artifact ∧ db.manifest a.id = db₀.manifest a.id

/-- The invariant holds and the artifacts are those of `s₀`. -/
structure Good (sha : Sha256) (contents : Set Bytes) (s₀ : Store) (leaked : Set Bytes)
    (s : Store) : Prop where
  inv : StoreInv sha contents leaked s
  same : SameArtifacts s₀.db s.db

/-- What may interrupt a program leaves it in `crash`, as long as it keeps the invariant. -/
structure Tolerant (sha : Sha256) (contents : Set Bytes) (s₀ : Store) (leaked : Set Bytes)
    (interrupts : Label → Store → Prop) (crash : Store → Prop) : Prop where
  good : ∀ s, Good sha contents s₀ leaked s → crash s
  marking : ∀ digests s, interrupts (.marking digests) s →
    Good sha contents s₀ (leaked ∪ {d | d ∈ digests}) s → crash s

variable {sha : Sha256} {contents leaked : Set Bytes} {s₀ s : Store}
  {interrupts : Label → Store → Prop} {crash : Store → Prop}

theorem SameArtifacts.refl (db : Db) : SameArtifacts db db := ⟨rfl, rfl, rfl⟩

theorem SameArtifacts.evolves {gone : ArtifactRow → Prop} {db₀ db : Db}
    (h : SameArtifacts db₀ db) : Evolves gone db₀ db where
  artifactSeq := h.artifactSeq.ge
  keeps a ha _ := h.artifact ▸ ha
  old a ha _ := ⟨h.artifact ▸ ha, by rw [Db.manifest, Db.manifest, h.artifactChunk]⟩

theorem Evolves.trans {gone : ArtifactRow → Prop} {db₀ db₁ db₂ : Db}
    (h : Evolves gone db₀ db₁) (h' : Evolves gone db₁ db₂) : Evolves gone db₀ db₂ where
  artifactSeq := h.artifactSeq.trans h'.artifactSeq
  keeps a ha hnot := h'.keeps a (h.keeps a ha hnot) hnot
  old a ha hid := by
    obtain ⟨ha₁, hmanifest₁⟩ := h'.old a ha (hid.trans h.artifactSeq)
    obtain ⟨ha₀, hmanifest₀⟩ := h.old a ha₁ hid
    exact ⟨ha₀, hmanifest₁.trans hmanifest₀⟩

theorem Evolves.mono {gone gone' : ArtifactRow → Prop} {db₀ db : Db} (h : Evolves gone db₀ db)
    (hsub : ∀ a, gone a → gone' a) : Evolves gone' db₀ db :=
  ⟨h.artifactSeq, fun a ha hnot => h.keeps a ha fun hg => hnot (hsub a hg), h.old⟩

/-- Nothing interrupts the inside of a transaction. -/
theorem Tolerant.inside : Tolerant sha contents s₀ leaked (fun _ _ => False) fun _ => True :=
  ⟨fun _ _ => trivial, fun _ _ h => h.elim⟩

theorem loadSession_wp {sessionId : Bytes} {R : SessionInfo → Store → Prop} (hcrash : crash s)
    (hR : ∀ session ∈ s.db.uploadSession, session.id = sessionId → R session s) :
    wp interrupts crash (loadSession sessionId) (Outcome crash R) s := by
  refine wp_seq (wp_select' (R := fun found s' => s' = s ∧ found = s.db.session? sessionId) hcrash
    ⟨rfl, rfl⟩) ?_
  rintro found s' ⟨rfl, rfl⟩
  cases hfound : s'.db.session? sessionId with
  | none => exact hcrash
  | some session => exact hR session (Db.session?_some hfound).1 (Db.session?_some hfound).2

theorem chunkReferenced_wp {digest : Bytes} {R : Bool → Store → Prop}
    (hcalm : Calm interrupts crash s)
    (hR : ∀ b, (b = true ↔ s.db.Referenced digest) → R b s) :
    wp interrupts crash (chunkReferenced digest) (Outcome crash R) s := by
  refine wp_seq (R := fun b s' => s' = s ∧ b = s.db.inManifest digest)
    (wp_select hcalm (fun l hl _ => hcalm l hl) ⟨rfl, rfl⟩) ?_
  rintro b s' ⟨rfl, rfl⟩
  cases hmanifest : s'.db.inManifest digest with
  | true => exact hR true (by simp [Db.Referenced, hmanifest])
  | false =>
    refine wp_select hcalm (fun l hl _ => hcalm l hl) (hR _ ?_)
    simp [Db.Referenced, hmanifest]

/-- Sessions and parts are those of `db₀`. -/
structure SameUploads (db₀ db : Db) : Prop where
  uploadSession : db.uploadSession = db₀.uploadSession
  uploadPart : db.uploadPart = db₀.uploadPart

/-- One round of the loop: the digest is referenced or marked. -/
private theorem markIfUnreferenced_wp {now : Int64} {digest : Bytes}
    (hgood : Good sha contents s₀ (leaked ∪ {digest}) s) (hcalm : Calm interrupts crash s) :
    wp interrupts crash (markIfUnreferenced now digest)
      (Outcome crash fun _ s' => Good sha contents s₀ leaked s' ∧ SameUploads s.db s'.db) s := by
  refine wp_seq (R := fun b s' => s' = s ∧ (b = true ↔ s.db.Referenced digest))
    (chunkReferenced_wp hcalm fun b hb => ⟨rfl, hb⟩) ?_
  rintro b s' ⟨rfl, hb⟩
  cases b with
  | true => exact ⟨⟨hgood.inv.settle (hb.mp rfl), hgood.same⟩, rfl, rfl⟩
  | false =>
    refine wp_exec hcalm (fun l hl _ => hcalm l hl) ⟨⟨hgood.inv.markPending now ?_, ?_⟩, rfl, rfl⟩
    · exact fun href => Bool.noConfusion (hb.mpr href)
    · exact ⟨hgood.same.artifact, hgood.same.artifactSeq, hgood.same.artifactChunk⟩

theorem union_mem_cons (leaked : Set Bytes) (digest : Bytes) (rest : List Bytes) :
    leaked ∪ {d | d ∈ digest :: rest} = leaked ∪ {d | d ∈ rest} ∪ {digest} := by
  ext d
  simp only [List.mem_cons, Set.mem_union, Set.mem_ofPred_eq, Set.mem_singleton_iff]
  tauto

/-- The whole loop, from a state in which all its digests may be leaked. -/
private theorem markAllUnreferenced_wp {now : Int64} {digests : List Bytes}
    (htol : Tolerant sha contents s₀ leaked interrupts crash)
    (hgood : Good sha contents s₀ (leaked ∪ {d | d ∈ digests}) s) :
    wp interrupts crash (markAllUnreferenced now digests)
      (Outcome crash fun _ s' => Good sha contents s₀ leaked s' ∧ SameUploads s.db s'.db) s := by
  induction digests generalizing s with
  | nil =>
    have hnil : leaked ∪ {d | d ∈ ([] : List Bytes)} = leaked := by simp
    rw [hnil] at hgood
    exact ⟨hgood, rfl, rfl⟩
  | cons digest rest ih =>
    refine wp_seq (wp_labelled.mpr (markIfUnreferenced_wp (union_mem_cons _ _ _ ▸ hgood)
      fun _ hl => htol.marking _ _ hl hgood)) ?_
    rintro - s' ⟨hgood', hsame⟩
    refine wp_imp (ih hgood') ?_
    rintro - s'' ⟨hgood'', hsame'⟩
    exact ⟨hgood'', hsame'.uploadSession.trans hsame.uploadSession,
      hsame'.uploadPart.trans hsame.uploadPart⟩

theorem markUnreferencedParts_wp {sessionId : Bytes} {now : Int64}
    (htol : Tolerant sha contents s₀ leaked interrupts crash)
    (hgood : Good sha contents s₀ leaked s) :
    wp interrupts crash (markUnreferencedParts sessionId now)
      (Outcome crash fun _ s' => Good sha contents s₀ leaked s' ∧
        SameUploads (s.db.deleteParts sessionId) s'.db) s := by
  have hcrash := htol.good s hgood
  refine wp_seq (wp_select' (R := fun digests s' => s' = s ∧
    digests = s.db.partDigests sessionId) hcrash ⟨rfl, rfl⟩) ?_
  rintro digests s' ⟨rfl, rfl⟩
  refine wp_seq (wp_exec' (R := fun _ s'' => s'' = { s' with db := s'.db.deleteParts sessionId })
    hcrash rfl) ?_
  rintro - s'' rfl
  refine wp_imp (markAllUnreferenced_wp htol ⟨hgood.inv.deleteParts sessionId, ?_⟩) fun _ _ h => h
  exact ⟨hgood.same.artifact, hgood.same.artifactSeq, hgood.same.artifactChunk⟩

theorem Good.setSessionState (hgood : Good sha contents s₀ leaked s) {cond : SessionInfo → Bool}
    {state : SessionState} (hcond : ∀ r ∈ s.db.uploadSession, cond r = true → r.state.live = true)
    (hstate : state ≠ .completed) :
    Good sha contents s₀ leaked { s with db := s.db.setSessionState cond state } :=
  ⟨hgood.inv.setSessionState hcond hstate,
    hgood.same.artifact, hgood.same.artifactSeq, hgood.same.artifactChunk⟩

theorem Good.updateSessions (hgood : Good sha contents s₀ leaked s) {cond : SessionInfo → Bool}
    {state : SessionState} (hcond : ∀ r ∈ s.db.uploadSession, cond r = true → r.state.live = true)
    (hstate : state ≠ .completed) : Good sha contents s₀ leaked (s.updateSessions cond state) :=
  ⟨(hgood.setSessionState hcond hstate).inv.congr rfl rfl,
    hgood.same.artifact, hgood.same.artifactSeq, hgood.same.artifactChunk⟩

theorem expireSessionIfDue_wp {session : SessionInfo} {now : Int64}
    (htol : Tolerant sha contents s₀ leaked interrupts crash)
    (hgood : Good sha contents s₀ leaked s) (hsession : session ∈ s.db.uploadSession) :
    wp interrupts crash (expireSessionIfDue session now)
      (Outcome crash fun _ s' => Good sha contents s₀ leaked s' ∧
        (s' = s ∨ ∀ r ∈ s'.db.uploadSession, r.id = session.id → r.state = .expired)) s := by
  have hcrash := htol.good s hgood
  unfold expireSessionIfDue
  by_cases hdue : session.state = .open ∧ session.expiresAt ≤ now
  · rw [if_pos hdue]
    refine wp_seq (wp_exec' (R := fun _ s' => s' = { s with
      db := (s.db.setSessionState (fun r => r.id == session.id && r.state == .open) .expired) })
      hcrash rfl) ?_
    rintro - s' rfl
    have hlive : ∀ r ∈ s.db.uploadSession, (r.id == session.id && r.state == .open) = true →
        r.state.live = true := by
      intro r _ hr
      simp only [Bool.and_eq_true, beq_iff_eq] at hr
      rw [hr.2]
      rfl
    have hgood' := hgood.setSessionState hlive (by simp : SessionState.expired ≠ .completed)
    refine wp_imp (markUnreferencedParts_wp htol hgood') ?_
    rintro - s'' ⟨hgood'', hsame⟩
    refine ⟨hgood'', .inr fun r hr hid => ?_⟩
    rw [hsame.uploadSession] at hr
    obtain ⟨r₀, hr₀, rfl⟩ := Table.mem_update.mp hr
    have hid₀ : r₀.id = session.id := by split at hid <;> exact hid
    have hrow := Table.eq_of_key hgood.inv.rows.sessionKeys hr₀ hsession hid₀
    simp [hrow, hdue.1]
  · rw [if_neg hdue]
    exact ⟨hgood, .inl rfl⟩

theorem updateSessions_wp {Q : Except Error Nat → Store → Prop} {cond : SessionInfo → Bool}
    {state : SessionState} (hcalm : Calm interrupts crash s)
    (herr : ∀ l, interrupts l s → ∀ e, Q (.error e) s)
    (hok : Q (.ok (s.db.countSessions cond)) (s.updateSessions cond state)) :
    wp interrupts crash (updateSessions cond state) Q s := by
  rw [updateSessions, wp_lift]
  exact ⟨fun hl => ⟨hcalm _ hl, herr _ hl⟩, hok⟩

theorem dbChanges_wp {Q : Except Error Nat → Store → Prop} {label : Label} {rows : Nat}
    (hcalm : Calm interrupts crash s) (hrows : Q (.ok rows) s) (hchanges : Q (.ok s.changes) s) :
    wp interrupts crash (dbChanges label rows) Q s := by
  rw [dbChanges, wp_tryCatch, wp_lift]
  exact ⟨fun hl => ⟨hcalm _ hl, fun _ => hrows⟩, hchanges⟩

theorem transition_wp {sessionId : Bytes} {source target : SessionState}
    (htol : Tolerant sha contents s₀ leaked interrupts crash)
    (hgood : Good sha contents s₀ leaked s) (hsource : source.live = true)
    (htarget : target ≠ .completed) :
    wp interrupts crash (transition sessionId source target)
      (Outcome crash fun b s' => Good sha contents s₀ leaked s' ∧
        s'.db = s.db.setSessionState (fun r => r.id == sessionId && r.state == source) target ∧
        (b = true → ∃ r ∈ s.db.uploadSession, r.id = sessionId ∧ r.state = source)) s := by
  have hlive : ∀ r ∈ s.db.uploadSession, (r.id == sessionId && r.state == source) = true →
      r.state.live = true := by
    intro r _ hr
    simp only [Bool.and_eq_true, beq_iff_eq] at hr
    rwa [hr.2]
  have hgood' := hgood.updateSessions hlive htarget
  have hfound : 0 < s.db.countSessions (fun r => r.id == sessionId && r.state == source) →
      ∃ r ∈ s.db.uploadSession, r.id = sessionId ∧ r.state = source := by
    intro hpos
    obtain ⟨r, hr, hcond⟩ := List.countP_pos_iff.mp hpos
    simp only [Bool.and_eq_true, beq_iff_eq] at hcond
    exact ⟨r, hr, hcond⟩
  refine wp_bind.mpr (updateSessions_wp (.of_crash (htol.good s hgood))
    (fun _ _ _ => htol.good s hgood) ?_)
  refine wp_bind.mpr (dbChanges_wp (.of_crash (htol.good _ hgood')) ?_ ?_) <;>
    exact ⟨hgood', rfl, fun hpos => hfound (of_decide_eq_true hpos)⟩

end ForgeRelay
