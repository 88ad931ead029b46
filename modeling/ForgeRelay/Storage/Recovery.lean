import ForgeRelay.Storage.Durability

/-!
# What a maintenance recovers

After a completed maintenance every chunk that nobody refers to is marked for deletion, provided
that no stop and no failure has fallen between the deletion of a session's parts and the marking
of their chunks. Such a stop leaves chunks behind that nothing ever marks.
-/

namespace ForgeRelay

open Program Prog

variable {sha : Sha256} {contents leaked : Set Bytes} {s : Store}

/-- Whatever nobody refers to can be collected, and the used bytes are the referenced ones. -/
structure Reclaimable (db : Db) : Prop where
  pending : ∀ c ∈ db.chunk, ¬ db.Referenced c.digest → c.state = .pendingDelete ∧ c.pendingAt ≠ none
  used : db.sumActive =
    sumRawSize (db.chunk.filter fun c => db.inManifest c.digest || db.inLivePart c.digest)

/-- The process may stop and steps may fail, but not while the chunks of deleted parts are being
marked and one of them that nobody refers to is still ACTIVE. -/
def outsideMarking : Label → Store → Prop
  | .marking digests, s => ∀ digest ∈ digests, s.db.Referenced digest ∨
      ∀ c ∈ s.db.chunk, c.digest = digest → c.state ≠ .active
  | _, _ => True

private theorem outsideMarking_harmless : Harmless sha contents ∅ outsideMarking := by
  intro digests s hmarked h
  refine ⟨h.rows, h.files, h.held, h.depicted, fun c hc hactive hnot => ?_⟩
  by_cases hdigest : c.digest ∈ digests
  · refine .inl ((hmarked _ hdigest).resolve_right fun hinactive => ?_)
    exact hinactive c hc rfl hactive
  · exact h.accounted c hc hactive (by simpa using hdigest)

private theorem StoreInv.reclaimable (h : StoreInv sha contents ∅ s)
    (honly : OnlyAwaiting [] s.db) :
    Reclaimable s.db := by
  have hactive : ∀ c ∈ s.db.chunk, c.state = .active ↔ s.db.Referenced c.digest := by
    intro c hc
    constructor
    · intro hactive
      exact (h.accounted c hc hactive (Set.notMem_empty _)).resolve_right (honly.nil _)
    · exact fun href => h.active_of_held (h.held _ href) c hc rfl
  refine ⟨fun c hc hfree => ?_, ?_⟩
  · have hstate : c.state = .pendingDelete := by
      cases hc' : c.state with
      | active => exact absurd ((hactive c hc).mp hc') hfree
      | pendingDelete => rfl
    exact ⟨hstate, h.rows.pendingAt c hc hstate⟩
  · unfold Db.sumActive
    congr 1
    refine List.filter_congr fun c hc => ?_
    rw [Bool.eq_iff_iff, beq_iff_eq, hactive c hc, Bool.or_eq_true]
    rfl

/-- The actions that run the maintenance. -/
def Action.maintains : Action → Bool
  | .open _ => true
  | .call .runMaintenance => true
  | _ => false

/-- In every run that is interrupted outside the marking only, a completed maintenance leaves
nothing behind that is neither referenced nor marked. -/
theorem maintenance_reclaims {events : List Event} {e : Event} {sys sys' : System}
    (hrun : Trace.Run (System.Step sha outsideMarking) .initial events sys)
    (hlast : System.Step sha outsideMarking sys e sys') (hmaintains : e.action.maintains = true)
    (hreturned : e.returned = true) : Reclaimable sys'.store.db := by
  have hkept := System.run_kept hrun outsideMarking_harmless Set.Subset.rfl
    (.empty sha (putData events) ∅)
  have hharmless : Harmless sha (putData events) ∅ outsideMarking := outsideMarking_harmless
  have htol := hharmless.tolerant (fun _ => False) sys.store
  have hgood : Good sha (putData events) sys.store ∅ sys.store := ⟨hkept.inv, .refl _⟩
  cases hlast with
  | «open» hexec =>
    rw [returnedOk_eq hreturned] at hexec
    have hends := wp_sound (openStorage_wp htol hgood) hexec
    exact hends.1.inv.reclaimable hends.2
  | @call s s' cfg call env r hexec =>
    rw [returnedOk_eq hreturned] at hexec
    cases call with
    | runMaintenance =>
      have hwp : wp outsideMarking _ (Call.runMaintenance.program sha cfg env)
          (Outcome _ fun _ s' =>
          Good sha (putData events) s ∅ s' ∧ OnlyAwaiting [] s'.db) s :=
        wp_seq (runMaintenance_wp htol hgood) fun _ _ h => h
      have hends := wp_sound hwp hexec
      exact hends.1.inv.reclaimable hends.2
    | _ => exact absurd hmaintains (by simp [Action.maintains])
  | close => exact absurd hmaintains (by simp [Action.maintains])

/-- The maintenance when the session of the sample upload is due. -/
def sampleExpiry : Move := (Action.call .runMaintenance).at (sampleEnv 86400)

/-- The chunk of the expired session is marked. -/
theorem maintenance_reclaims_sample :
    ∃ e sys', (played sampleSha sampleUpload).2.move sampleSha sampleExpiry = some (e, sys') ∧
      Reclaimable sys'.store.db := by
  obtain ⟨⟨e, sys'⟩, hmove⟩ : ∃ r,
      (played sampleSha sampleUpload).2.move sampleSha sampleExpiry = some r :=
    Option.isSome_iff_exists.mp (by decide +kernel)
  have hend : ((played sampleSha sampleUpload).2.move sampleSha sampleExpiry).map
      (fun r => (r.1.action.maintains, r.1.returned)) = some (true, true) := by decide +kernel
  rw [hmove, Option.map_some, Option.some.injEq, Prod.mk.injEq] at hend
  have hrun : Trace.Run (System.Step sampleSha outsideMarking) .initial
      (played sampleSha sampleUpload).1 (played sampleSha sampleUpload).2 :=
    played_run (by simp [sampleUpload, Action.at]) (by decide +kernel)
  exact ⟨e, sys', hmove,
    maintenance_reclaims hrun (System.move_step (.inl rfl) hmove) hend.1 hend.2⟩

/-- The same maintenance, stopped when it has deleted the parts. -/
def sampleStop : List Move := sampleUpload ++ [{ sampleExpiry with stopAfter := some 8 }]

/-- The root is opened again, with the maintenance that belongs to it. -/
def sampleReopen : Move := (Action.open sampleConfig).at (sampleEnv 86401)

/-- A stop in the marking: the chunk stays ACTIVE although nobody refers to it. -/
theorem maintenance_leaks_after_stop :
    ¬ ∀ (events : List Event) (e : Event) (sys sys' : System),
      Trace.Run (System.Step sampleSha anywhere) .initial events sys →
      System.Step sampleSha anywhere sys e sys' → e.action.maintains = true →
      e.returned = true → Reclaimable sys'.store.db := by
  intro hall
  obtain ⟨⟨e, sys'⟩, hmove⟩ : ∃ r,
      (played sampleSha sampleStop).2.move sampleSha sampleReopen = some r :=
    Option.isSome_iff_exists.mp (by decide +kernel)
  have hend : ((played sampleSha sampleStop).2.move sampleSha sampleReopen).map
      (fun r => (r.1.action.maintains, r.1.returned,
        r.2.store.db.chunk.map fun c => (c.state, r.2.store.db.inManifest c.digest,
          r.2.store.db.inLivePart c.digest))) =
      some (true, true, [(.active, false, false)]) := by decide +kernel
  simp only [hmove, Option.map_some, Option.some.injEq, Prod.mk.injEq] at hend
  obtain ⟨hmaintains, hreturned, hchunks⟩ := hend
  have hrun : Trace.Run (System.Step sampleSha anywhere) .initial
      (played sampleSha sampleStop).1 (played sampleSha sampleStop).2 :=
    played_run (fun _ _ => .inr fun _ _ => trivial) (by decide +kernel)
  have hreclaimable := hall _ e _ sys' hrun (System.move_step (.inl rfl) hmove) hmaintains hreturned
  obtain ⟨c, hc, hcommon⟩ := List.map_eq_singleton_iff.mp hchunks
  simp only [Prod.mk.injEq] at hcommon
  have hpending := hreclaimable.pending c (by rw [hc]; exact List.mem_singleton_self c) (by
    rw [Db.Referenced, hcommon.2.1, hcommon.2.2]
    simp)
  rw [hcommon.1] at hpending
  exact ChunkState.noConfusion hpending.1

end ForgeRelay
