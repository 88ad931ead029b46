import ForgeRelay.Lib.Faults
import ForgeRelay.Lib.Rely
import ForgeRelay.Storage.Machine

/-!
# Writing a chunk file is all or nothing

`write_chunk_file` with its steps named, so that it can be said which of them fail. A write that
fails may have written a part; a rival that writes the same chunk may put the complete file in
place at any time.
-/

namespace ForgeRelay

open Program Prog

variable {name target data : Bytes} {s s' : Store}

/-- The steps of `write_chunk_file`. -/
inductive WriteStep
  | create
  | writeHeader
  | writeData
  | fsync
  | close
  | makeDir
  | look
  | rename
  | unlink
  deriving DecidableEq, Repr

/-- The steps that fill the temporary file. -/
def fillSteps (name data : Bytes) : Prog Store WriteStep Error Unit := do
  (tmpFileWrite name (storeHeader data.length (frCrc32 data))).tag .writeHeader
  (if data.length ≠ 0 then (tmpFileWrite name data).tag .writeData else Pure.pure ())
  silentStep.tag .fsync
  silentStep.tag .close
  silentStep.tag .makeDir

/-- The removal of the temporary file, whose status is ignored. -/
def unlinkSteps (name : Bytes) : Prog Store WriteStep Error Unit :=
  tryCatchThe Error ((tmpFileUnlink name).tag .unlink) fun _ => Pure.pure ()

/-- The rename into place. -/
def renameSteps (name target : Bytes) : Prog Store WriteStep Error Unit :=
  tryCatchThe Error ((tmpFileRename name target).tag .rename) fun e => do
    unlinkSteps name
    if ← (fileExists target).tag .look then Pure.pure () else MonadExcept.throw e

/-- `write_chunk_file` with its steps named. -/
def writeSteps (tag target data : Bytes) : Prog Store WriteStep Error Unit := do
  (tmpFileCreate (tmpFileName tag)).tag .create
  tryCatchThe Error (fillSteps (tmpFileName tag) data) fun e => do
    unlinkSteps (tmpFileName tag)
    MonadExcept.throw e
  if ← (fileExists target).tag .look then unlinkSteps (tmpFileName tag)
  else renameSteps (tmpFileName tag) target

theorem writeSteps_tag (tag target data : Bytes) :
    (writeSteps tag target data).tag () = (writeChunkFile tag target data).tag () := by
  have hunlink : ∀ name, (unlinkSteps name).tag () = (attempt (tmpFileUnlink name)).tag () := by
    intro name
    rw [unlinkSteps, attempt, tag_tryCatch, tag_tryCatch, tag_tag]
    rfl
  have hfill : ∀ name, (fillSteps name data).tag () = (tmpFileFill name data).tag () := by
    intro name
    rw [fillSteps, tmpFileFill]
    simp only [tag_bind, tag_tag, tag_ite, tag_pure]
  rw [writeSteps, writeChunkFile]
  simp only [tag_bind, tag_tryCatch, tag_tag, hfill, hunlink, tag_ite, tag_throw, renameSteps,
    tag_pure]

/-- What a failing step leaves behind. A look at the target and the removal of the temporary file do
not fail. -/
def WriteStep.Fails (name : Bytes) : WriteStep → Store → Store → Prop
  | .writeHeader, s, s' | .writeData, s, s' => ∃ part, s' = { s with
      tmp := Table.update (·.1 == name) (fun f => (f.1, f.2 ++ part)) s.tmp }
  | .look, _, _ | .unlink, _, _ => False
  | _, s, s' => s' = s

/-- The target is as before, or it is new and complete. -/
def Placed (target data : Bytes) (s s' : Store) : Prop :=
  s'.files target = s.files target ∨
    s.files target = none ∧ s'.files target = some (chunkFile data)

/-- The temporary files with this name. -/
def Store.tmpNamed (s : Store) (name : Bytes) : List (Bytes × Bytes) :=
  s.tmp.filter (·.1 == name)

/-- The target is as before or new and complete, and the temporary files with the name are as
before. Rivals leave the temporary file of the call alone, and put only complete files into
place. -/
structure Clean (name target data : Bytes) (s s' : Store) : Prop where
  placed : Placed target data s s'
  own : s'.tmpNamed name = s.tmpNamed name

/-- In the middle of the call: its temporary file is there, with this content. -/
structure Writing (name target data content : Bytes) (s s' : Store) : Prop where
  placed : Placed target data s s'
  fresh : s.tmpNamed name = []
  own : s'.tmpNamed name = [(name, content)]

theorem Placed.refl (s : Store) : Placed target data s s := .inl rfl

theorem Placed.trans {s'' : Store} (h : Placed target data s s')
    (h' : Placed target data s' s'') : Placed target data s s'' := by
  rcases h with h | ⟨hnone, h⟩
  · rcases h' with h' | ⟨hnone', h'⟩
    · exact .inl (h'.trans h)
    · exact .inr ⟨h ▸ hnone', h'⟩
  · rcases h' with h' | ⟨hnone', -⟩
    · exact .inr ⟨hnone, h'.trans h⟩
    · rw [h] at hnone'
      cases hnone'

theorem Clean.refl (s : Store) : Clean name target data s s := ⟨.refl s, rfl⟩

theorem Clean.trans {s'' : Store} (h : Clean name target data s s')
    (h' : Clean name target data s' s'') : Clean name target data s s'' :=
  ⟨h.placed.trans h'.placed, h'.own.trans h.own⟩

theorem Writing.rivals {content : Bytes} {s'' : Store} (h : Writing name target data content s s')
    (h' : Clean name target data s' s'') : Writing name target data content s s'' :=
  ⟨h.placed.trans h'.placed, h.fresh, h'.own.trans h.own⟩

/-- If the target was not there before the call, it is there now, and complete. -/
def Fulfilled (target data : Bytes) (s s' : Store) : Prop :=
  s.files target = none → s'.files target = some (chunkFile data)

private theorem Fulfilled.placed {s'' : Store} (h : Fulfilled target data s s')
    (h' : Placed target data s' s'') : Fulfilled target data s s'' := by
  intro hnone
  rcases h' with h' | ⟨hnone', -⟩
  · exact h'.trans (h hnone)
  · rw [h hnone] at hnone'
    cases hnone'

theorem Writing.append {content : Bytes} (part : Bytes)
    (h : Writing name target data content s s') :
    Writing name target data (content ++ part) s { s' with
      tmp := Table.update (·.1 == name) (fun f => (f.1, f.2 ++ part)) s'.tmp } := by
  refine ⟨h.placed, h.fresh, ?_⟩
  have hkeep : (fun f : Bytes × Bytes => f.1 == name) ∘
      (fun f => if f.1 == name then (f.1, f.2 ++ part) else f) = fun f => f.1 == name := by
    funext f
    simp only [Function.comp_apply]
    split <;> rfl
  have hown := h.own
  rw [Store.tmpNamed] at hown ⊢
  rw [Table.update, List.filter_map, hkeep, hown]
  simp

theorem Writing.delete {content : Bytes} (h : Writing name target data content s s') :
    Clean name target data s { s' with tmp := Table.delete (·.1 == name) s'.tmp } := by
  refine ⟨h.placed, ?_⟩
  rw [h.fresh, Store.tmpNamed, Table.delete, List.filter_filter]
  simp

section

variable {content : Bytes}

private theorem tmpFileWrite_among {label : WriteStep} (part : Bytes)
    (hlabel : label = .writeHeader ∨ label = .writeData)
    (h : Writing name target data content s s') :
    wpAmong (Clean name target data) (WriteStep.Fails name) (Placed target data s)
      ((tmpFileWrite name part).tag label)
      (Outcome (fun s'' => ∃ content, Writing name target data content s s'')
        fun _ => Writing name target data (content ++ part) s) s' := by
  rw [tmpFileWrite, fileStep, tag_lift]
  refine wpAmong_lift (P := Writing name target data content s) (fun _ _ => Writing.rivals) h
    (fun _ h => h.placed) ?_ fun _ h => h.append part
  intro s₁ s₂ e h₁ hfails
  obtain ⟨part, rfl⟩ : ∃ part, s₂ = { s₁ with
      tmp := Table.update (·.1 == name) (fun f => (f.1, f.2 ++ part)) s₁.tmp } := by
    rcases hlabel with rfl | rfl <;> exact hfails
  exact ⟨_, h₁.append part⟩

private theorem silentStep_among {label : WriteStep}
    (hlabel : ∀ s₁ s₂, label.Fails name s₁ s₂ → s₂ = s₁)
    (h : Writing name target data content s s') :
    wpAmong (Clean name target data) (WriteStep.Fails name) (Placed target data s)
      (silentStep.tag label)
      (Outcome (fun s'' => ∃ content, Writing name target data content s s'')
        fun _ => Writing name target data content s) s' := by
  rw [silentStep, fileStep, tag_lift]
  refine wpAmong_lift (P := Writing name target data content s) (fun _ _ => Writing.rivals) h
    (fun _ h => h.placed) (fun s₁ s₂ e h₁ hfails => ?_) fun _ h => h
  rw [hlabel s₁ s₂ hfails]
  exact ⟨_, h₁⟩

private theorem fillSteps_among (h : Writing name target data [] s s') :
    wpAmong (Clean name target data) (WriteStep.Fails name) (Placed target data s)
      (fillSteps name data)
      (Outcome (fun s'' => ∃ content, Writing name target data content s s'')
        fun _ => Writing name target data (chunkFile data) s) s' := by
  have hsilent : ∀ label : WriteStep, (∀ s₁ s₂, label.Fails name s₁ s₂ → s₂ = s₁) →
      ∀ s₁, Writing name target data (chunkFile data) s s₁ →
      wpAmong (Clean name target data) (WriteStep.Fails name) (Placed target data s)
        (silentStep.tag label)
        (Outcome (fun s'' => ∃ content, Writing name target data content s s'')
          fun _ => Writing name target data (chunkFile data) s) s₁ :=
    fun label hlabel s₁ h₁ => silentStep_among hlabel h₁
  refine wpAmong_seq (tmpFileWrite_among _ (.inl rfl) h) fun _ s₁ h₁ => ?_
  rw [List.nil_append] at h₁
  refine wpAmong_seq (R := fun _ => Writing name target data (chunkFile data) s) ?_
    fun _ s₂ h₂ => ?_
  · by_cases hdata : data.length ≠ 0
    · rw [if_pos hdata]
      exact tmpFileWrite_among data (.inr rfl) h₁
    · rw [if_neg hdata]
      have hnil : data = [] := List.length_eq_zero_iff.mp (not_not.mp hdata)
      subst hnil
      rw [chunkFile, List.append_nil]
      exact h₁
  refine wpAmong_seq (hsilent .fsync (fun _ _ h => h) s₂ h₂) fun _ s₃ h₃ => ?_
  refine wpAmong_seq (hsilent .close (fun _ _ h => h) s₃ h₃) fun _ s₄ h₄ => ?_
  exact hsilent .makeDir (fun _ _ h => h) s₄ h₄

private theorem unlinkSteps_among {T : Store → Prop}
    (hT : ∀ s₁ s₂, T s₁ → Placed target data s₁ s₂ → T s₂)
    (h : Writing name target data content s s') (hs' : T s') :
    wpAmong (Clean name target data) (WriteStep.Fails name) (Placed target data s)
      (unlinkSteps name)
      (Outcome (fun _ => False) fun _ s'' => Clean name target data s s'' ∧ T s'') s' := by
  rw [unlinkSteps, tmpFileUnlink, fileStep, tag_lift]
  refine wpAmong_catch (?_ : wpAmong _ _ _ _ (Outcome (fun _ => False) _) _) fun _ _ h => h.elim
  refine wpAmong_lift (P := fun s₁ => Writing name target data content s s₁ ∧ T s₁)
    (fun s₁ s₂ h₁ hrivals => ⟨h₁.1.rivals hrivals, hT s₁ s₂ h₁.2 hrivals.placed⟩) ⟨h, hs'⟩
    (fun _ h => h.1.placed) (fun _ _ _ _ hfails => hfails.elim) fun s₁ h₁ => ?_
  exact ⟨h₁.1.delete, hT s₁ _ h₁.2 (.inl rfl)⟩

private theorem look_among {P : Store → Prop}
    (hP : ∀ s₁ s₂, P s₁ → Clean name target data s₁ s₂ → P s₂)
    (hplaced : ∀ s₁, P s₁ → Placed target data s s₁) (h : P s') :
    wpAmong (Clean name target data) (WriteStep.Fails name) (Placed target data s)
      ((fileExists target).tag .look)
      (Outcome (fun _ => False) fun there s'' => P s'' ∧
        if there then Fulfilled target data s s'' else s.files target = none) s' := by
  rw [fileExists, fileStep, tag_lift]
  refine wpAmong_lift hP h hplaced (fun _ _ _ _ hfails => hfails.elim) fun s₁ h₁ => ⟨h₁, ?_⟩
  rcases hfile : s₁.files target with _ | file
  · rcases hplaced s₁ h₁ with hsame | ⟨hnone, -⟩
    · exact hsame ▸ hfile
    · exact hnone
  · intro hnone
    rcases hplaced s₁ h₁ with hsame | ⟨-, hnew⟩
    · rw [hsame, hnone] at hfile
      cases hfile
    · exact hnew

private theorem renameSteps_among (h : Writing name target data (chunkFile data) s s')
    (hnone : s.files target = none) :
    wpAmong (Clean name target data) (WriteStep.Fails name) (Placed target data s)
      (renameSteps name target)
      (Outcome (Clean name target data s)
        fun _ s'' => Clean name target data s s'' ∧ Fulfilled target data s s'') s' := by
  have hrename : wpAmong (Clean name target data) (WriteStep.Fails name) (Placed target data s)
      ((tmpFileRename name target).tag .rename)
      (Outcome (Writing name target data (chunkFile data) s)
        fun _ s'' => Clean name target data s s'' ∧ Fulfilled target data s s'') s' := by
    rw [tmpFileRename, fileStep, tag_lift]
    refine wpAmong_lift (P := Writing name target data (chunkFile data) s)
      (fun _ _ => Writing.rivals) h (fun _ h => h.placed) (fun s₁ s₂ e h₁ hfails => ?_)
      fun s₁ h₁ => ?_
    · obtain rfl : s₂ = s₁ := hfails
      exact h₁
    · have hfind : s₁.tmp.find? (·.1 == name) = some (name, chunkFile data) := by
        rw [← List.head?_filter]
        exact congrArg List.head? h₁.own
      simp only [hfind]
      have hnew : (Function.update s₁.files target (some (chunkFile data))) target =
          some (chunkFile data) := Function.update_self _ _ _
      exact ⟨⟨.inr ⟨hnone, hnew⟩, h₁.delete.own⟩, fun _ => hnew⟩
  refine wpAmong_catch hrename fun e s₁ h₁ => ?_
  refine wpAmong_seq (wpAmong_sure (unlinkSteps_among (T := fun _ => True)
    (fun _ _ _ _ => trivial) h₁ trivial)) fun _ s₂ h₂ => ?_
  refine wpAmong_seq (wpAmong_sure (look_among (P := Clean name target data s)
    (fun _ _ => Clean.trans) (fun _ h => h.placed) h₂.1)) fun there s₃ h₃ => ?_
  cases there with
  | true => exact h₃
  | false => exact h₃.1

end

/-- Whatever fails and whenever the process stops: the target is as before or new and complete;
behind the call its temporary file is gone; and a normal return leaves a complete target, unless
it was there before. -/
private theorem writeSteps_among (tag target data : Bytes) (s : Store) :
    wpAmong (Clean (tmpFileName tag) target data) (WriteStep.Fails (tmpFileName tag))
      (Placed target data s) (writeSteps tag target data)
      (Outcome (Clean (tmpFileName tag) target data s) fun _ s' =>
        Clean (tmpFileName tag) target data s s' ∧ Fulfilled target data s s') s := by
  have hcreate : wpAmong (Clean (tmpFileName tag) target data) (WriteStep.Fails (tmpFileName tag))
      (Placed target data s) ((tmpFileCreate (tmpFileName tag)).tag .create)
      (Outcome (Clean (tmpFileName tag) target data s)
        fun _ => Writing (tmpFileName tag) target data [] s) s := by
    rw [tmpFileCreate, fileStep, tag_lift]
    refine wpAmong_lift (P := Clean (tmpFileName tag) target data s) (fun _ _ => Clean.trans)
      (.refl s) (fun _ h => h.placed) (fun s₁ s₂ e h₁ hfails => ?_) fun s₁ h₁ => ?_
    · obtain rfl : s₂ = s₁ := hfails
      exact h₁
    · split
      · exact h₁
      · rename_i hany
        have hnone : s₁.tmpNamed (tmpFileName tag) = [] := by
          rw [Store.tmpNamed, List.filter_eq_nil_iff]
          intro f hf hname
          exact hany (List.any_eq_true.mpr ⟨f, hf, hname⟩)
        refine ⟨h₁.placed, h₁.own ▸ hnone, ?_⟩
        rw [Store.tmpNamed] at hnone ⊢
        rw [List.filter_cons, hnone, if_pos (beq_self_eq_true _)]
  refine wpAmong_seq hcreate fun _ s₁ h₁ => ?_
  refine wpAmong_seq (wpAmong_catch (fillSteps_among h₁) ?_) fun _ s₂ h₂ => ?_
  · rintro e s₂ ⟨content, h₂⟩
    refine wpAmong_seq (wpAmong_sure (unlinkSteps_among (T := fun _ => True)
      (fun _ _ _ _ => trivial) h₂ trivial)) fun _ s₃ h₃ => ?_
    exact h₃.1
  refine wpAmong_seq (wpAmong_sure (look_among (P := Writing _ target data (chunkFile data) s)
    (fun _ _ => Writing.rivals) (fun _ h => h.placed) h₂)) fun there s₃ hlook => ?_
  obtain ⟨h₃, hthere⟩ := hlook
  cases there with
  | true => exact wpAmong_sure (unlinkSteps_among (fun _ _ => Fulfilled.placed) h₃ hthere)
  | false => exact renameSteps_among h₃ hthere

/-- Writing a chunk file is all or nothing, for every pattern of failures, stops and rivals. -/
theorem writeChunkFile_all_or_nothing {tag : Bytes} {r : Option (Except Error Unit)}
    (hrun : Among (Clean (tmpFileName tag) target data) (WriteStep.Fails (tmpFileName tag))
      (writeSteps tag target data) s r s') :
    (s'.files target = s.files target ∨ s'.files target = some (chunkFile data)) ∧
    (∀ file, s.files target = some file → s'.files target = some file) ∧
    (r = some (.ok ()) → s.files target = none → s'.files target = some (chunkFile data)) ∧
    (r ≠ none → s'.tmpNamed (tmpFileName tag) = s.tmpNamed (tmpFileName tag)) := by
  have hends := wpAmong_sound (writeSteps_among tag target data s) hrun
  have hplaced : Placed target data s s' := by
    rcases r with _ | e | _
    · exact hends
    · exact hends.placed
    · exact hends.1.placed
  refine ⟨hplaced.imp_right And.right, fun file hfile => ?_, fun hr => ?_, fun hr => ?_⟩
  · rcases hplaced with hsame | ⟨hnone, -⟩
    · exact hsame.trans hfile
    · rw [hfile] at hnone
      cases hnone
  · rw [hr] at hends
    exact hends.2
  · rcases r with _ | e | _
    · exact absurd rfl hr
    · exact hends.own
    · exact hends.1.own

/-- The chunk `a` on a fresh root. -/
theorem writeChunkFile_all_or_nothing_sample :
    ((writeSteps (ascii "1") (ascii "ca/97") (ascii "a")).run .empty).2.files (ascii "ca/97") =
      some (chunkFile (ascii "a")) := by
  have hrefl : ∀ s, Clean (tmpFileName (ascii "1")) (ascii "ca/97") (ascii "a") s s := .refl
  have hrun := among_run hrefl (WriteStep.Fails (tmpFileName (ascii "1")))
    (writeSteps (ascii "1") (ascii "ca/97") (ascii "a")) .empty
  exact (writeChunkFile_all_or_nothing hrun).2.2.1 (by decide +kernel) rfl

/-- A root on which the target holds other bytes. -/
def sampleOccupied : Store := { Store.empty with files := fun _ => some (ascii "garbage") }

/-- The call returns normally, and the target does not hold the header and the data. -/
theorem occupied_target_kept :
    ¬ ∀ r s', Among (Clean (tmpFileName (ascii "1")) (ascii "ca/97") (ascii "a"))
        (WriteStep.Fails (tmpFileName (ascii "1")))
        (writeSteps (ascii "1") (ascii "ca/97") (ascii "a"))
        sampleOccupied r s' → r = some (.ok ()) →
      s'.files (ascii "ca/97") = some (chunkFile (ascii "a")) := by
  intro hall
  have hkept := hall _ _ (among_run (fun s => .refl s) _ _ _) (by decide +kernel)
  exact absurd hkept (by decide +kernel)

end ForgeRelay
