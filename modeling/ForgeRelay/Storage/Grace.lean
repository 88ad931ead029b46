import ForgeRelay.Storage.Durability
import ForgeRelay.Storage.Steps

/-!
# The protection period of the garbage collection

`pending_at` is the time of the last loss of reference: a row that is PENDING_DELETE now has been
so since that time, and no chunk with such a row is referenced. So what is collected has not been
referenced for the whole protection period.
-/

namespace ForgeRelay

open Program Prog

/-- The chunk is marked, with this time. -/
def Db.PendingAt (db : Db) (digest : Bytes) (p : Int64) : Prop :=
  ∃ c ∈ db.chunk, c.digest = digest ∧ c.state = .pendingDelete ∧ c.pendingAt = some p

/-- Whatever is marked later has been marked before with the same time, or is marked now. -/
def MarkedBefore (now : Int64) (s s' : Store) : Prop :=
  ∀ digest p, s'.db.PendingAt digest p → p = now ∨ s.db.PendingAt digest p

theorem MarkedBefore.of_chunk {now : Int64} {s s' : Store} (h : s'.db.chunk = s.db.chunk) :
    MarkedBefore now s s' := fun digest p hp => .inr (by rwa [Db.PendingAt, h] at hp)

/-- Every step, whatever the state. -/
def markedBefore (now : Int64) : Bound Store Error where
  inv _ := True
  rel := MarkedBefore now
  err _ := True
  refl _ := .of_chunk rfl
  trans hab hbc := fun digest p hp => (hbc digest p hp).elim .inl (hab digest p)

private theorem markedBefore_allows (now : Int64) :
    Allows now (markedBefore now) (fun _ => True) fun _ => True where
  fr _ _ _ := trivial
  reserve := trivial
  files _ hdb := ⟨.of_chunk (by rw [hdb]), trivial⟩
  insertChunk {s row} _ hactive _ := by
    refine ⟨?_, trivial⟩
    rintro digest p ⟨c, hc, hdigest, hstate, hp⟩
    unfold Db.insertChunkOrIgnore at hc
    dsimp only at hc
    split at hc
    · exact .inr ⟨c, hc, hdigest, hstate, hp⟩
    · rcases List.mem_append.mp hc with hc | hc
      · exact .inr ⟨c, hc, hdigest, hstate, hp⟩
      · rw [List.mem_singleton.mp hc, hactive] at hstate
        cases hstate
  reactivate {s cond} _ := by
    refine ⟨?_, trivial⟩
    rintro digest p ⟨c, hc, hdigest, hstate, hp⟩
    obtain ⟨c₀, hc₀, rfl⟩ := Table.mem_update.mp hc
    by_cases hc₁ : cond c₀ = true
    · rw [if_pos hc₁] at hstate
      cases hstate
    · rw [if_neg hc₁] at hdigest hstate hp
      exact .inr ⟨c₀, hc₀, hdigest, hstate, hp⟩
  markPending {s digest'} _ := by
    refine ⟨?_, trivial⟩
    rintro digest p ⟨c, hc, hdigest, hstate, hp⟩
    obtain ⟨c₀, hc₀, rfl⟩ := Table.mem_update.mp hc
    by_cases hc₁ : c₀.isActive digest' = true
    · rw [if_pos hc₁] at hp
      exact .inl (Option.some.inj hp).symm
    · rw [if_neg hc₁] at hdigest hstate hp
      exact .inr ⟨c₀, hc₀, hdigest, hstate, hp⟩
  deleteChunk {s digest'} _ := by
    refine ⟨?_, trivial⟩
    rintro digest p ⟨c, hc, hrest⟩
    exact .inr ⟨c, (Table.mem_delete.mp hc).1, hrest⟩
  setSessionState _ _ := ⟨.of_chunk rfl, trivial⟩
  insertSession _ _ hdb := ⟨.of_chunk (by rw [Db.insertSession_ok hdb]), trivial⟩
  deleteParts _ := ⟨.of_chunk rfl, trivial⟩
  insertPart _ _ _ hdb := ⟨.of_chunk (by rw [Db.insertPart_ok hdb]), trivial⟩
  insertArtifact _ _ _ _ _ hdb := ⟨.of_chunk (by rw [(Db.insertArtifact_ok hdb).2]), trivial⟩
  insertArtifactChunk _ _ hdb := ⟨.of_chunk (by rw [Db.insertArtifactChunk_ok hdb]), trivial⟩
  removeArtifact _ := ⟨.of_chunk rfl, trivial⟩
  sessions _ _ _ := trivial
  parts _ _ _ := trivial
  dataLength _ _ _ := trivial

private theorem StoreInv.not_referenced {sha : Sha256} {contents leaked : Set Bytes} {s : Store}
    (h : StoreInv sha contents leaked s) {digest : Bytes} {p : Int64}
    (hp : s.db.PendingAt digest p) : ¬ s.db.Referenced digest := by
  intro href
  obtain ⟨c, hc, hdigest, hstate, -⟩ := hp
  rw [h.active_of_held (h.held _ href) c hc hdigest] at hstate
  cases hstate

/-- The chunk loses its row, or its file. -/
def Removed (s s' : Store) (digest : Bytes) : Prop :=
  (∃ c ∈ s.db.chunk, c.digest = digest) ∧
    ((∀ c ∈ s'.db.chunk, c.digest ≠ digest) ∨
      (s.files (relPath digest)).isSome ∧ s'.files (relPath digest) = none)

instance (s s' : Store) (digest : Bytes) : Decidable (Removed s s' digest) :=
  inferInstanceAs (Decidable (_ ∧ (_ ∨ _)))

/-- The other tables are as before, and only these chunks have lost their row or their file. -/
structure Collects (digests : Bytes → Prop) (s s' : Store) : Prop where
  db : s'.db = { s.db with chunk := s'.db.chunk }
  row : ∀ digest, ¬ digests digest → (∃ c ∈ s.db.chunk, c.digest = digest) →
    ∃ c ∈ s'.db.chunk, c.digest = digest
  file : ∀ digest, ¬ digests digest → digest.length = 64 → (s.files (relPath digest)).isSome →
    (s'.files (relPath digest)).isSome

namespace Collects

variable {digests : Bytes → Prop} {s s' : Store}

theorem refl (s : Store) : Collects digests s s := ⟨rfl, fun _ _ => id, fun _ _ _ => id⟩

theorem trans (a b c : Store) (h : Collects digests a b) (h' : Collects digests b c) :
    Collects digests a c :=
  ⟨by rw [h'.db, h.db], fun d hd => h'.row d hd ∘ h.row d hd,
    fun d hd hlen => h'.file d hd hlen ∘ h.file d hd hlen⟩

private theorem referenced_iff (h : Collects digests s s') (digest : Bytes) :
    s'.db.Referenced digest ↔ s.db.Referenced digest := by
  rw [h.db]
  rfl

/-- Whatever is removed is one of the chunks. -/
private theorem of_removed (h : Collects digests s s') {digest : Bytes} (hlen : digest.length = 64)
    (hremoved : Removed s s' digest) : digests digest := by
  by_contra hnot
  obtain ⟨hrow, hgone | ⟨hfile, hgone⟩⟩ := hremoved
  · obtain ⟨c, hc, hdigest⟩ := h.row digest hnot hrow
    exact hgone c hc hdigest
  · have hsome := h.file digest hnot hlen hfile
    rw [hgone] at hsome
    cases hsome

end Collects

section

variable {sha : Sha256} {digests : Bytes → Prop}

/-- No more than that, whatever the state. -/
def collects (digests : Bytes → Prop) : Bound Store Error where
  inv _ := True
  rel := Collects digests
  err _ := True
  refl := .refl
  trans := .trans _ _ _

private theorem collects_reactivate (digest : Bytes) :
    Stays (collects digests) (exec (·.reactivate (·.digest == digest))) := by
  refine within_exec fun {s} _ => ⟨⟨rfl, fun d _ ⟨c, hc, hdigest⟩ => ?_, fun _ _ _ => id⟩, trivial⟩
  refine ⟨_, Table.mem_update.mpr ⟨c, hc, rfl⟩, ?_⟩
  split <;> exact hdigest

private theorem collects_deleteChunk {digest : Bytes} (hdigest : digests digest) :
    Stays (collects digests) (exec (·.deleteChunk digest)) := by
  refine within_exec fun {s} _ => ⟨⟨rfl, fun d hd ⟨c, hc, heq⟩ => ?_, fun _ _ _ => id⟩, trivial⟩
  refine ⟨c, Table.mem_delete.mpr ⟨hc, ?_⟩, heq⟩
  rw [beq_eq_false_iff_ne]
  rintro rfl
  exact hd (heq ▸ hdigest)

private theorem collects_remove {data : Bytes} (hdigest : digests (sha.hex data)) :
    Stays (collects digests) (chunkStoreRemove (sha.hex data)) := by
  rw [chunkStoreRemove, chunkPath_hex, bind_pure_left]
  refine .lift fun s _ => ⟨⟨⟨rfl, fun _ _ => id, fun d hd hlen hfile => ?_⟩, trivial⟩, trivial⟩
  have hne : relPath d ≠ relPath (sha.hex data) := fun heq =>
    hd (relPath_injective hlen (sha.hex_length data) heq ▸ hdigest)
  show (Function.update s.files _ none (relPath d)).isSome
  rwa [Function.update_of_ne hne]

private theorem collectCandidate_collects (cfg : StorageConfig) (env : CallEnv) (dryRun : Bool)
    {data : Bytes} {rawSize p : Int64} (report : GcReport)
    (hdue : ¬ env.now - cfg.gcGraceSeconds.toInt64 < p → digests (sha.hex data)) :
    Stays (collects digests)
      (collectCandidate cfg env dryRun (sha.hex data, rawSize, p) report) := by
  unfold collectCandidate
  dsimp only
  refine .ite (fun _ => .pure trivial) fun hover => .seq (within_chunkReferenced _) fun _ =>
    .ite (fun _ => ?_) fun _ => .ite (fun _ => .pure trivial) fun _ => ?_
  · exact .seq (collects_reactivate _) fun _ => .pure trivial
  · exact .seq (collects_remove (hdue hover)) fun _ =>
      .seq (collects_deleteChunk (hdue hover)) fun _ => .pure trivial

private theorem collectCandidates_collects (sha : Sha256) (cfg : StorageConfig) (env : CallEnv)
    (dryRun : Bool) {candidates : List (Bytes × Int64 × Int64)} (report : GcReport)
    (hcandidates : ∀ candidate ∈ candidates, (∃ data, candidate.1 = sha.hex data) ∧
      (¬ env.now - cfg.gcGraceSeconds.toInt64 < candidate.2.2 → digests candidate.1)) :
    Stays (collects digests) (collectCandidates cfg env dryRun candidates report) := by
  induction candidates generalizing report with
  | nil => exact .pure trivial
  | cons candidate rest ih =>
    obtain ⟨⟨hdata, hdue⟩, hrest⟩ := List.forall_mem_cons.mp hcandidates
    obtain ⟨digest, rawSize, p⟩ := candidate
    obtain ⟨data, rfl⟩ := hdata
    exact .seq (collectCandidate_collects cfg env dryRun report hdue) fun report => ih report hrest

end

/-- The chunk is marked, and its protection period is over at this time. -/
def Due (cfg : StorageConfig) (now : Int64) (db : Db) (digest : Bytes) : Prop :=
  ∃ p, db.PendingAt digest p ∧ ¬ now - cfg.gcGraceSeconds.toInt64 < p

/-- A garbage collection, wherever it is interrupted. -/
private theorem collectGarbage_collects {sha : Sha256} {contents leaked : Set Bytes}
    {interrupts : Label → Store → Prop} {cfg : StorageConfig} {env : CallEnv} {dryRun : Bool}
    {s s' : Store} {r : Option (Except Error Unit)} (hinv : StoreInv sha contents leaked s)
    (hexec : Exec interrupts ((Call.collectGarbage dryRun).program sha cfg env) s r s') :
    Collects (Due cfg env.now s.db) s s' := by
  have hrest : Stays (collects (Due cfg env.now s.db)) (collectCandidates cfg env dryRun
      s.db.pendingChunks ⟨Int64.ofNat s.db.pendingChunks.length, 0, 0⟩) := by
    refine collectCandidates_collects sha cfg env dryRun _ fun candidate hcandidate => ?_
    obtain ⟨c, hc, hcandidate⟩ := List.mem_filterMap.mp hcandidate
    obtain ⟨data, -, hdigest⟩ := hinv.rows.chunkData c hc
    split at hcandidate
    · rename_i hstate
      obtain ⟨p, hp, rfl⟩ := Option.map_eq_some_iff.mp hcandidate
      exact ⟨⟨data, hdigest⟩, fun hover => ⟨p, ⟨c, hc, rfl, hstate, hp⟩, hover⟩⟩
    · cases hcandidate
  cases hexec with
  | step rest =>
    exact (Within.exec (V := fun _ => True) (.seq hrest fun _ => .pure trivial) rest
      (fun _ => trivial) trivial).1
  | fail e _ rest =>
    cases rest
    exact .refl s
  | stop _ => exact .refl s

/-- The action leads from one system to another, and the store is `s` at a moment of it. -/
inductive System.Amid (sha : Sha256) (interrupts : Label → Store → Prop) :
    System → Event → Store → System → Prop
  | open {s₀ s s' : Store} {cfg : StorageConfig} {env : CallEnv} {rest : StorageM Unit}
      {r : Option (Except Error Unit)}
      (hpass : Passes interrupts (openStorage cfg env) s₀ rest s)
      (hexec : Exec interrupts rest s r s') :
      Amid sha interrupts ⟨s₀, none⟩ ⟨.open cfg, env, returnedOk r⟩ s
        ⟨s', if returnedOk r then some cfg else none⟩
  | call {s₀ s s' : Store} {cfg : StorageConfig} {call : Call} {env : CallEnv}
      {rest : StorageM Unit} {r : Option (Except Error Unit)}
      (hpass : Passes interrupts (call.program sha cfg env) s₀ rest s)
      (hexec : Exec interrupts rest s r s') :
      Amid sha interrupts ⟨s₀, some cfg⟩ ⟨.call call, env, returnedOk r⟩ s
        ⟨s', r.map fun _ => cfg⟩
  | close {s : Store} {cfg : StorageConfig} {env : CallEnv} :
      Amid sha interrupts ⟨s, some cfg⟩ ⟨.close, env, true⟩ s ⟨s, none⟩

section

variable {sha : Sha256} {sys sys' : System} {e : Event} {s : Store}

theorem System.Amid.step {interrupts : Label → Store → Prop}
    (h : Amid sha interrupts sys e s sys') : Step sha interrupts sys e sys' := by
  cases h with
  | «open» hpass hexec => exact .open (hpass.exec hexec)
  | call hpass hexec => exact .call (hpass.exec hexec)
  | close => exact .close

/-- The process may stop at every moment. -/
theorem System.Amid.stopped (h : Amid sha anywhere sys e s sys') :
    ∃ returned config, Step sha anywhere sys ⟨e.action, e.env, returned⟩ ⟨s, config⟩ := by
  cases h with
  | «open» hpass _ =>
    obtain ⟨r, hexec⟩ := hpass.stopped fun _ _ => trivial
    exact ⟨_, _, .open hexec⟩
  | call hpass _ =>
    obtain ⟨r, hexec⟩ := hpass.stopped fun _ _ => trivial
    exact ⟨_, _, .call hexec⟩
  | close => exact ⟨_, _, .close⟩

private theorem System.Step.amid {interrupts : Label → Store → Prop}
    (h : Step sha interrupts sys e sys') : Amid sha interrupts sys e sys.store sys' := by
  cases h with
  | «open» hexec => exact .open (.here _ _) hexec
  | call hexec => exact .call (.here _ _) hexec
  | close => exact .close

private theorem System.Amid.markedBefore {interrupts : Label → Store → Prop}
    (h : Amid sha interrupts sys e s sys') : MarkedBefore e.env.now s sys'.store := by
  cases h with
  | @«open» s₀ s s' cfg env rest r hpass hexec =>
    have hrest := (((markedBefore_allows env.now).openStorage cfg env rfl).passes hpass
      (fun _ => trivial) trivial).2
    exact (hrest.exec hexec (fun _ => trivial) trivial).1
  | @call s₀ s s' cfg call env rest r hpass hexec =>
    have hallowed :=
      (markedBefore_allows env.now).program sha cfg env rfl (fun _ _ _ => trivial) call
    have hrest := (hallowed.passes hpass (fun _ => trivial) trivial).2
    exact (hrest.exec hexec (fun _ => trivial) trivial).1
  | close => exact fun _ _ => .inr

private theorem System.run_markedBefore {interrupts : Label → Store → Prop} {events : List Event}
    (hrun : Trace.Run (Step sha interrupts) sys events sys') {digest : Bytes} {p : Int64}
    (hlater : ∀ e ∈ events, p ≠ e.env.now) (hp : sys'.store.db.PendingAt digest p) :
    sys.store.db.PendingAt digest p := by
  induction hrun with
  | nil => exact hp
  | cons head _ ih =>
    obtain ⟨hhead, htail⟩ := List.forall_mem_cons.mp hlater
    exact (head.amid.markedBefore digest p (ih htail hp)).resolve_left hhead

/-- The invariant at every moment of every run, with any digest leaked. -/
theorem System.Amid.inv {events : List Event}
    (hrun : Trace.Run (Step sha anywhere) .initial events sys)
    (h : Amid sha anywhere sys e s sys') : StoreInv sha Set.univ Set.univ s := by
  obtain ⟨returned, config, hstep⟩ := h.stopped
  exact (System.run_kept (hrun.append (.single hstep)) anywhere_harmless (Set.subset_univ _)
    (.empty _ _ _)).inv

/-- What a garbage collection does, wherever it ends. -/
private theorem System.Step.collects {interrupts : Label → Store → Prop} {cfg : StorageConfig}
    {dryRun : Bool} {contents leaked : Set Bytes} (h : Step sha interrupts sys e sys')
    (hinv : StoreInv sha contents leaked sys.store) (hconfig : sys.config = some cfg)
    (haction : e.action = .call (.collectGarbage dryRun)) :
    Collects (Due cfg e.env.now sys.store.db) sys.store sys'.store := by
  cases h with
  | «open» => cases haction
  | call hexec =>
    cases hconfig
    cases haction
    exact collectGarbage_collects hinv hexec
  | close => cases haction

end

/-- The clock does not go back. -/
def Chronological (events : List Event) : Prop :=
  events.Pairwise fun e e' => e.env.now ≤ e'.env.now

instance (events : List Event) : Decidable (Chronological events) :=
  inferInstanceAs (Decidable (events.Pairwise _))

theorem Due.pendingAt {cfg : StorageConfig} {now : Int64} {db : Db} {digest : Bytes}
    (h : Due cfg now db digest) (hclock : -2^63 ≤ now.toInt - cfg.gcGraceSeconds.toInt) :
    ∃ p, db.PendingAt digest p ∧ p.toInt ≤ now.toInt - cfg.gcGraceSeconds.toInt := by
  obtain ⟨p, hp, hover⟩ := h
  refine ⟨p, hp, ?_⟩
  rw [Int64.lt_iff_toInt_lt, Int64.toInt_sub, Int32.toInt_toInt64, not_lt] at hover
  have hmax := p.toInt_lt
  by_cases hover' : now.toInt - cfg.gcGraceSeconds.toInt < 2^63
  · rwa [Int.bmod_eq_of_le (by omega) (by omega)] at hover
  · omega

/-- A chunk that a garbage collection removes at the time `gc.env.now` has been referenced at no
moment of the protection period before: not at a moment of the collection itself, and not at a
moment of another action with a later clock reading than the beginning of the period. The start
of the first such action is the state at that beginning; actions with one and the same reading
take place at one time, and the state at a time is the one that the last of them leaves. -/
theorem gc_respects_grace {sha : Sha256} {sys sys' : System} {events : List Event} {gc : Event}
    {cfg : StorageConfig} {s : Store} {digest : Bytes}
    (hrun : Trace.Run (System.Step sha anywhere) .initial events sys)
    (hconfig : sys.config = some cfg) (haction : gc.action = .call (.collectGarbage false))
    (hclock : -2^63 ≤ gc.env.now.toInt - cfg.gcGraceSeconds.toInt)
    (hgc : sys.Amid sha anywhere gc s sys') (hremoved : Removed sys.store sys'.store digest) :
    ¬ s.db.Referenced digest ∧
      ∀ {sys₀ sys₁ : System} {before after : List Event} {e : Event} {s₁ : Store},
        Trace.Run (System.Step sha anywhere) .initial before sys₀ →
        sys₀.Amid sha anywhere e s₁ sys₁ →
        Trace.Run (System.Step sha anywhere) sys₁ after sys →
        Chronological (before ++ e :: after ++ [gc]) →
        gc.env.now.toInt - cfg.gcGraceSeconds.toInt < e.env.now.toInt →
        ¬ s₁.db.Referenced digest := by
  have hinv := hgc.step.amid.inv hrun
  have hend := hgc.step.collects hinv hconfig haction
  obtain ⟨returned, config, hstop⟩ := hgc.stopped
  have hamid := hstop.collects hinv hconfig haction
  obtain ⟨c, hc, rfl⟩ := hremoved.1
  obtain ⟨data, -, hdata⟩ := hinv.rows.chunkData c hc
  have hdue := hend.of_removed (hdata ▸ sha.hex_length data) hremoved
  obtain ⟨p, hp, hbefore⟩ := hdue.pendingAt hclock
  refine ⟨fun href => hinv.not_referenced hp ((hamid.referenced_iff _).mp href), ?_⟩
  intro sys₀ sys₁ before after e s₁ hrun₀ he hafter hchron hwithin
  have hlater : ∀ e' ∈ after, p ≠ e'.env.now := by
    rintro e' he' rfl
    have hle := (List.pairwise_cons.mp (List.pairwise_append.mp
      (List.pairwise_append.mp hchron).1).2.1).1 e' he'
    rw [Int64.le_iff_toInt_le] at hle
    omega
  have hp₁ := System.run_markedBefore hafter hlater hp
  refine (he.inv hrun₀).not_referenced ((he.markedBefore _ _ hp₁).resolve_left ?_)
  rintro rfl
  omega

/-- The sample upload is aborted. -/
def sampleAbort : List Move :=
  sampleUpload ++ [(Action.call (.abortSession (ascii "s1"))).at (sampleEnv 5)]

/-- After the abort, a maintenance and a garbage collection: the events and the systems. -/
def sampleReclaim : Option (Event × System × Event × System) := do
  let (e, sys) ← (played sampleSha sampleAbort).2.move sampleSha
    ((Action.call .runMaintenance).at (sampleEnv 2000))
  let (gc, sys') ← sys.move sampleSha ((Action.call (.collectGarbage false)).at (sampleEnv 5000))
  return (e, sys, gc, sys')

/-- The collection removes the chunk of the aborted upload, which has not been referenced at the
maintenance within the protection period. -/
theorem gc_respects_grace_sample : ∃ e sys gc sys', sampleReclaim = some (e, sys, gc, sys') ∧
    Removed sys.store sys'.store (sampleSha.hex (ascii "a")) ∧
      ¬ (played sampleSha sampleAbort).2.store.db.Referenced (sampleSha.hex (ascii "a")) := by
  have hrun : Trace.Run (System.Step sampleSha anywhere) .initial
      (played sampleSha sampleAbort).1 (played sampleSha sampleAbort).2 :=
    played_run (fun _ _ => .inr fun _ _ => trivial) (by decide +kernel)
  obtain ⟨⟨e, sys, gc, sys'⟩, hsome, hcheck⟩ := (Option.any_eq_true
    (fun (e, sys, gc, sys') => decide
      (Removed sys.store sys'.store (sampleSha.hex (ascii "a")) ∧
        sys.config.map (·.gcGraceSeconds) = some 3600 ∧
        Chronological ((played sampleSha sampleAbort).1 ++ e :: [] ++ [gc])))
    sampleReclaim).mp (by decide +kernel)
  obtain ⟨hremoved, hseconds, hchron⟩ := of_decide_eq_true hcheck
  obtain ⟨cfg, hconfig, hgrace⟩ := Option.map_eq_some_iff.mp hseconds
  have hmoves := hsome
  simp only [sampleReclaim, Option.bind_eq_bind, Option.bind_eq_some_iff, Option.pure_def,
    Option.some.injEq, Prod.mk.injEq] at hmoves
  obtain ⟨⟨_, _⟩, he, ⟨_, _⟩, hgc, rfl, rfl, rfl, rfl⟩ := hmoves
  have hstep : System.Amid sampleSha anywhere _ _ _ _ := (System.move_step (.inl rfl) he).amid
  have hstep' : System.Amid sampleSha anywhere _ _ _ _ := (System.move_step (.inl rfl) hgc).amid
  obtain ⟨he_action, he_env⟩ := System.move_event he
  obtain ⟨hgc_action, hgc_env⟩ := System.move_event hgc
  refine ⟨_, _, _, _, hsome, hremoved, ?_⟩
  refine (gc_respects_grace (hrun.append (.single hstep.step)) hconfig hgc_action ?_ hstep'
    hremoved).2 hrun hstep (.nil _) hchron ?_
  · rw [hgc_env, hgrace]
    decide
  · rw [hgc_env, hgrace, he_env]
    decide

end ForgeRelay
