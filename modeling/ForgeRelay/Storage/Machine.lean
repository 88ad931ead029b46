import ForgeRelay.Lib.Trace
import ForgeRelay.Storage.CleanupSpecs

/-!
# Storage over time

A process opens the storage root, calls its operations one after the other, and closes it, or it
stops in the middle of an operation. The state that stays are the tables and the files.
-/

namespace ForgeRelay

open Program Prog

/-- A call of an operation that may change the state. -/
inductive Call
  | createSession (ns name version : Bytes) (expectedSize : UInt64) (expectedDigest owner : Bytes)
  | putChunk (sessionId : Bytes) (ordinal : UInt64) (data : Bytes)
  | commitSession (sessionId : Bytes)
  | abortSession (sessionId : Bytes)
  | deleteArtifact (ns name version : Bytes)
  | collectGarbage (dryRun : Bool)
  | runMaintenance

/-- What the call does, without its result. -/
def Call.program (sha : Sha256) (cfg : StorageConfig) (env : CallEnv) : Call → StorageM Unit
  | createSession ns name version expectedSize expectedDigest owner => do
    let _ ← ForgeRelay.createSession cfg env ns name version expectedSize expectedDigest owner
  | putChunk sessionId ordinal data => do
    let _ ← ForgeRelay.putChunk sha env sessionId ordinal data
  | commitSession sessionId => do
    let _ ← ForgeRelay.commitSession sha env sessionId
  | abortSession sessionId => ForgeRelay.abortSession env sessionId
  | deleteArtifact ns name version => do
    let _ ← ForgeRelay.deleteArtifact env ns name version
  | collectGarbage dryRun => do
    let _ ← ForgeRelay.collectGarbage cfg env dryRun
  | runMaintenance => do
    let _ ← ForgeRelay.runMaintenance env

/-- What a process does with a storage root. -/
inductive Action
  | «open» (cfg : StorageConfig)
  | call (call : Call)
  | close

/-- An action, what the world outside gives to it, and whether it has returned without an
exception. -/
structure Event where
  action : Action
  env : CallEnv
  returned : Bool

/-- The state that stays, and the configuration of the open `Storage`, if there is one. -/
structure System where
  store : Store
  config : Option StorageConfig

/-- A fresh root that no process has opened. -/
def System.initial : System := ⟨.empty, none⟩

/-- Whether a run has completed without an exception. -/
def returnedOk : Option (Except Error Unit) → Bool
  | some (.ok ()) => true
  | _ => false

theorem returnedOk_eq {r : Option (Except Error Unit)} (h : returnedOk r = true) :
    r = some (.ok ()) := by
  unfold returnedOk at h
  split at h
  · rfl
  · cases h

/-- One action from its start to its end, or to where the process stops. -/
inductive System.Step (sha : Sha256) (interrupts : Label → Store → Prop) :
    System → Event → System → Prop
  | open {s s' : Store} {cfg : StorageConfig} {env : CallEnv} {r : Option (Except Error Unit)}
      (hexec : Exec interrupts (openStorage cfg env) s r s') :
      Step sha interrupts ⟨s, none⟩ ⟨.open cfg, env, returnedOk r⟩
        ⟨s', if returnedOk r then some cfg else none⟩
  | call {s s' : Store} {cfg : StorageConfig} {call : Call} {env : CallEnv}
      {r : Option (Except Error Unit)} (hexec : Exec interrupts (call.program sha cfg env) s r s') :
      Step sha interrupts ⟨s, some cfg⟩ ⟨.call call, env, returnedOk r⟩ ⟨s', r.map fun _ => cfg⟩
  | close {s : Store} {cfg : StorageConfig} {env : CallEnv} :
      Step sha interrupts ⟨s, some cfg⟩ ⟨.close, env, true⟩ ⟨s, none⟩

/-- An action and, if the process stops in it, after how many steps. -/
structure Move where
  action : Action
  env : CallEnv
  stopAfter : Option Nat

/-- The program up to its end or to where it is stopped. -/
def runUpTo (p : StorageM Unit) (s : Store) : Option Nat → Option (Except Error Unit) × Store
  | none => (some (p.run s).1, (p.run s).2)
  | some n => runFor n p s

/-- What a move does; `none` if the action is not possible. -/
def System.move (sha : Sha256) (sys : System) (m : Move) : Option (Event × System) :=
  match m.action, sys.config with
  | .open cfg, none =>
    let (r, s) := runUpTo (openStorage cfg m.env) sys.store m.stopAfter
    some (⟨.open cfg, m.env, returnedOk r⟩, ⟨s, if returnedOk r then some cfg else none⟩)
  | .call call, some cfg =>
    let (r, s) := runUpTo (call.program sha cfg m.env) sys.store m.stopAfter
    some (⟨.call call, m.env, returnedOk r⟩, ⟨s, r.map fun _ => cfg⟩)
  | .close, some _ => some (⟨.close, m.env, true⟩, ⟨sys.store, none⟩)
  | _, _ => none

/-- Several moves: the events and the system at the end. -/
def System.play (sha : Sha256) : System → List Move → Option (List Event × System)
  | sys, [] => some ([], sys)
  | sys, m :: moves => do
    let (e, sys') ← sys.move sha m
    let (es, sys'') ← play sha sys' moves
    return (e :: es, sys'')

private theorem exec_runUpTo {interrupts : Label → Store → Prop} {stopAfter : Option Nat}
    (hstop : stopAfter = none ∨ ∀ l s, interrupts l s) (p : StorageM Unit) (s : Store) :
    Exec interrupts p s (runUpTo p s stopAfter).1 (runUpTo p s stopAfter).2 := by
  cases stopAfter with
  | none => exact exec_run interrupts p s
  | some n => exact exec_runFor (hstop.resolve_left (by simp)) n p s

theorem System.move_step {sha : Sha256} {interrupts : Label → Store → Prop} {sys sys' : System}
    {m : Move} {e : Event} (hstop : m.stopAfter = none ∨ ∀ l s, interrupts l s)
    (h : sys.move sha m = some (e, sys')) : Step sha interrupts sys e sys' := by
  obtain ⟨store, config⟩ := sys
  unfold System.move at h
  split at h
  · cases h
    rename_i hconfig
    subst hconfig
    exact .open (exec_runUpTo hstop _ _)
  · cases h
    rename_i hconfig
    subst hconfig
    exact .call (exec_runUpTo hstop _ _)
  · cases h
    rename_i hconfig
    subst hconfig
    exact .close
  · cases h

theorem System.move_event {sha : Sha256} {sys sys' : System} {m : Move} {e : Event}
    (h : sys.move sha m = some (e, sys')) : e.action = m.action ∧ e.env = m.env := by
  unfold System.move at h
  split at h
  · cases h
    exact ⟨Eq.symm ‹_›, rfl⟩
  · cases h
    exact ⟨Eq.symm ‹_›, rfl⟩
  · cases h
    exact ⟨Eq.symm ‹_›, rfl⟩
  · cases h

theorem System.play_run {sha : Sha256} {interrupts : Label → Store → Prop} {sys sys' : System}
    {moves : List Move} {es : List Event}
    (hstop : ∀ m ∈ moves, m.stopAfter = none ∨ ∀ l s, interrupts l s)
    (h : sys.play sha moves = some (es, sys')) :
    Trace.Run (Step sha interrupts) sys es sys' := by
  induction moves generalizing sys es with
  | nil =>
    cases h
    exact .nil _
  | cons m moves ih =>
    obtain ⟨hhead, hrest⟩ := List.forall_mem_cons.mp hstop
    simp only [System.play, Option.bind_eq_bind, Option.bind_eq_some_iff] at h
    obtain ⟨⟨e, sys₁⟩, hmove, ⟨es', sys₂⟩, hplay, hresult⟩ := h
    cases hresult
    exact .cons (move_step hhead hmove) (ih hrest hplay)

/-- The events and the end of a run on a fresh root. -/
def played (sha : Sha256) (moves : List Move) : List Event × System :=
  (System.initial.play sha moves).getD ([], .initial)

theorem played_run {sha : Sha256} {interrupts : Label → Store → Prop} {moves : List Move}
    (hstop : ∀ m ∈ moves, m.stopAfter = none ∨ ∀ l s, interrupts l s)
    (hsome : (System.initial.play sha moves).isSome = true) :
    Trace.Run (System.Step sha interrupts) .initial (played sha moves).1 (played sha moves).2 := by
  obtain ⟨r, hr⟩ := Option.isSome_iff_exists.mp hsome
  refine System.play_run hstop (hr.trans ?_)
  rw [played, hr, Option.getD_some]

/-- A move that nothing stops. -/
def Action.at (action : Action) (env : CallEnv) : Move := ⟨action, env, none⟩

/-- A function with the digest of SHA-256 on the content `a`. -/
def sampleSha : Sha256 where
  digest data :=
    if data = ascii "a" then
      [0xca, 0x97, 0x81, 0x12, 0xca, 0x1b, 0xbd, 0xca, 0xfa, 0xc2, 0x31, 0xb3,
        0x9a, 0x23, 0xdc, 0x4d, 0xa7, 0x86, 0xef, 0xf8, 0x14, 0x7c, 0x4e, 0x72,
        0xb9, 0x80, 0x77, 0x85, 0xaf, 0xee, 0x48, 0xbb]
    else List.replicate 32 0
  length_digest data := by split <;> rfl

def sampleConfig : StorageConfig where
  rootEmpty := false
  chunkSize := 4 * 1024 * 1024
  capacityBytes := 1024 * 1024 * 1024
  highWatermarkPercent := 90
  sessionHours := 24
  gcGraceSeconds := 3600
  maxSessionsPerOwner := 8

/-- What the world outside gives to a call at this time. -/
def sampleEnv (now : Int64) : CallEnv := ⟨now, ascii "s1", ascii "1"⟩

/-- A root is opened, and the chunk `a` is uploaded. -/
def sampleUpload : List Move :=
  [(Action.open sampleConfig).at (sampleEnv 0),
    (Action.call (.createSession (ascii "team") (ascii "app") (ascii "1.0") 1
      (sampleSha.hex (ascii "a")) (ascii "alice"))).at (sampleEnv 0),
    (Action.call (.putChunk (ascii "s1") 0 (ascii "a"))).at (sampleEnv 1)]

/-- The chunk that a call brings along. -/
def Event.chunk? (e : Event) : Option Bytes :=
  match e.action with
  | .call (.putChunk _ _ data) => some data
  | _ => none

/-- The chunks that the calls of a run have brought along. -/
def putData (events : List Event) : Set Bytes := {data | data ∈ events.filterMap Event.chunk?}

theorem putData_append (events events' : List Event) :
    putData (events ++ events') = putData events ∪ putData events' := by
  ext data
  simp [putData]

/-- A call that deletes the artifact with this reference. -/
def Event.deletes (e : Event) (ref : Bytes × Bytes × Bytes) : Prop :=
  e.action = .call (.deleteArtifact ref.1 ref.2.1 ref.2.2)

section

variable {sha : Sha256} {contents leaked : Set Bytes} {interrupts : Label → Store → Prop}

/-- An action that ends anywhere has kept the invariant; other artifacts than the deleted one are
as before. -/
structure Kept (sha : Sha256) (contents leaked : Set Bytes) (gone : ArtifactRow → Prop)
    (s s' : Store) : Prop where
  inv : StoreInv sha contents leaked s'
  evolves : Evolves gone s.db s'.db

/-- An interruption while chunks are being marked keeps the digests accounted for. -/
def Harmless (sha : Sha256) (contents leaked : Set Bytes) (interrupts : Label → Store → Prop) :
    Prop :=
  ∀ digests s, interrupts (.marking digests) s →
    StoreInv sha contents (leaked ∪ {d | d ∈ digests}) s → StoreInv sha contents leaked s

theorem Good.kept {gone : ArtifactRow → Prop} {s₀ s : Store}
    (h : Good sha contents s₀ leaked s) : Kept sha contents leaked gone s₀ s :=
  ⟨h.inv, h.same.evolves⟩

theorem Harmless.tolerant (h : Harmless sha contents leaked interrupts)
    (gone : ArtifactRow → Prop) (s₀ : Store) :
    Tolerant sha contents s₀ leaked interrupts (Kept sha contents leaked gone s₀) where
  good _ hs := hs.kept
  marking digests s hl hs := ⟨h digests s hl hs.inv, hs.same.evolves⟩

/-- What a call may remove. -/
def Call.removes : Call → ArtifactRow → Prop
  | deleteArtifact ns name version, a => a.ref = (ns, name, version)
  | _, _ => False

/-- Every call keeps the invariant, however it ends. -/
theorem Call.program_wp {cfg : StorageConfig} {env : CallEnv} {s : Store} (call : Call)
    (hharmless : Harmless sha contents leaked interrupts)
    (hput : ∀ sessionId ordinal data, call = .putChunk sessionId ordinal data → data ∈ contents)
    (hinv : StoreInv sha contents leaked s) :
    wp interrupts (Kept sha contents leaked call.removes s) (call.program sha cfg env)
      (Outcome (Kept sha contents leaked call.removes s) fun _ s' =>
        Kept sha contents leaked call.removes s s') s := by
  have htol := hharmless.tolerant call.removes s
  have hgood : Good sha contents s leaked s := ⟨hinv, .refl _⟩
  cases call with
  | createSession ns name version size digest owner =>
    exact wp_seq (createSession_wp htol hgood) fun _ _ h => h.1.kept
  | putChunk sessionId ordinal data =>
    exact wp_seq (putChunk_wp (hput _ _ _ rfl) htol hgood) fun _ _ h => h.kept
  | commitSession sessionId =>
    exact wp_seq (commitSession_wp htol hgood) fun _ _ h => ⟨h.1, h.2⟩
  | abortSession sessionId => exact wp_imp (abortSession_wp htol hgood) fun _ _ h => h.kept
  | deleteArtifact ns name version =>
    exact wp_seq (deleteArtifact_wp (htol.good s hgood) hinv) fun _ _ h => ⟨h.1, h.2⟩
  | collectGarbage dryRun => exact wp_seq (collectGarbage_wp htol hgood) fun _ _ h => h.kept
  | runMaintenance => exact wp_seq (runMaintenance_wp htol hgood) fun _ _ h => h.1.kept

theorem System.Step.kept {sys sys' : System} {e : Event} (h : Step sha interrupts sys e sys')
    (hharmless : Harmless sha contents leaked interrupts)
    (hput : putData [e] ⊆ contents) (hinv : StoreInv sha contents leaked sys.store) :
    Kept sha contents leaked (fun a => e.deletes a.ref) sys.store sys'.store := by
  cases h with
  | «open» hexec =>
    exact wp_everywhere (wp_imp (openStorage_wp (hharmless.tolerant _ _) ⟨hinv, .refl _⟩)
      fun _ _ h => h.1.kept) hexec
  | @call s s' cfg call env r hexec =>
    have hput' : ∀ sessionId ordinal data, call = .putChunk sessionId ordinal data →
        data ∈ contents := by
      rintro sessionId ordinal data rfl
      exact hput (List.mem_filterMap.mpr ⟨_, List.mem_singleton_self _, rfl⟩)
    have hkept := wp_everywhere (call.program_wp hharmless hput'
      hinv) hexec
    refine ⟨hkept.inv, hkept.evolves.mono fun a ha => ?_⟩
    cases call with
    | deleteArtifact ns name version =>
      obtain ⟨rfl, rfl, rfl⟩ : a.ns = ns ∧ a.name = name ∧ a.version = version := by
        simpa [Call.removes, ArtifactRow.ref] using ha
      rfl
    | _ => exact ha.elim
  | close => exact ⟨hinv, (SameArtifacts.refl _).evolves⟩

theorem System.run_config {sys sys' : System} {events : List Event}
    (hrun : Trace.Run (Step sha interrupts) sys events sys')
    (hstart : ∀ cfg, sys.config = some cfg → checkConfig cfg = .ok ()) :
    ∀ cfg, sys'.config = some cfg → checkConfig cfg = .ok () := by
  refine hrun.invariant (I := fun sys => ∀ cfg, sys.config = some cfg → checkConfig cfg = .ok ())
    (fun sys e sys' _ hsys hstep cfg hcfg => ?_) hstart
  cases hstep with
  | @«open» s s' cfg' env r hexec =>
    cases hcheck : checkConfig cfg' with
    | ok u =>
      dsimp only at hcfg
      split at hcfg
      · cases hcfg
        exact hcheck
      · cases hcfg
    | error err =>
      have hfails : openStorage cfg' env = .throw err := by
        rw [openStorage, hcheck]
        rfl
      rw [hfails] at hexec
      cases hexec
      cases hcfg
  | @call s s' cfg' call env r hexec =>
    obtain ⟨-, -, rfl⟩ := Option.map_eq_some_iff.mp hcfg
    exact hsys cfg' rfl
  | close => cases hcfg

/-- Every run of a process and its successors. -/
theorem System.run_kept {sys sys' : System} {events : List Event}
    (hrun : Trace.Run (Step sha interrupts) sys events sys')
    (hharmless : Harmless sha contents leaked interrupts) (hput : putData events ⊆ contents)
    (hinv : StoreInv sha contents leaked sys.store) :
    Kept sha contents leaked (fun a => ∃ e ∈ events, e.deletes a.ref) sys.store sys'.store := by
  induction hrun with
  | nil => exact ⟨hinv, (SameArtifacts.refl _).evolves⟩
  | @cons s s' s'' e es head _ ih =>
    rw [← List.singleton_append, putData_append, Set.union_subset_iff] at hput
    have hhead := head.kept hharmless hput.1 hinv
    have htail := ih hput.2 hhead.inv
    exact ⟨htail.inv, (hhead.evolves.mono fun a ha => ⟨e, List.mem_cons_self, ha⟩).trans
      (htail.evolves.mono fun a ⟨e', he', ha⟩ => ⟨e', List.mem_cons_of_mem _ he', ha⟩)⟩

end

end ForgeRelay
