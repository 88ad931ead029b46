import ForgeRelay.Lib.Trace
import ForgeRelay.Lib.Words
import ForgeRelay.Service.LogLines
import Mathlib.Algebra.GroupWithZero.Nat

/-!
# Log rotation

The log file and its history files hold the latest lines, in order: a rotation drops the oldest
history file and nothing else. A file has reached the largest size only if it is a single line.
-/

namespace ForgeRelay

private theorem historyPath_injective {path : Bytes} {i j : Nat}
    (h : historyPath path i = historyPath path j) : i = j :=
  ascii_toString_injective (List.append_cancel_left (List.append_cancel_left h))

private theorem historyPath_ne (path : Bytes) (i : Nat) : historyPath path i ≠ path := by
  intro h
  have hlength := congrArg List.length h
  rw [historyPath, List.length_append, List.length_append] at hlength
  have hdot : (ascii ".").length = 1 := rfl
  omega

section Renaming

variable {files : Bytes → Option Bytes} {src dst path : Bytes}

private theorem fsRename_good (h : files src = none → files dst = none) :
    fsRename .good files src dst =
      Function.update (Function.update files src none) dst (files src) := by
  rw [fsRename]
  cases hsrc : files src with
  | none =>
    have hsame : ∀ {q}, files q = none → Function.update files q none = files := by
      intro q hq
      rw [← hq]
      exact Function.update_eq_self q files
    rw [hsame hsrc, hsame (h hsrc)]
  | some content => exact if_pos rfl

/-- The numbers of the first history files have no gap. -/
def Gapless (path : Bytes) (k : Nat) (files : Bytes → Option Bytes) : Prop :=
  ∀ i < k, files (historyPath path (i + 1)) = none → files (historyPath path (i + 2)) = none

variable {k : Nat}

private theorem Gapless.rename_other (h : Gapless path (k + 1) files) {q : Bytes}
    (hq₁ : q ≠ historyPath path (k + 1)) (hq₂ : q ≠ historyPath path (k + 2)) :
    fsRename .good files (historyPath path (k + 1)) (historyPath path (k + 2)) q = files q := by
  rw [fsRename_good (h k (Nat.lt_succ_self k)), Function.update_of_ne hq₂,
    Function.update_of_ne hq₁]

private theorem historyPath_ne_of_lt {i j : Nat} (h : i < j) :
    historyPath path i ≠ historyPath path j :=
  fun hpath => h.ne (historyPath_injective hpath)

theorem Gapless.rename (h : Gapless path (k + 1) files) : Gapless path k
    (fsRename .good files (historyPath path (k + 1)) (historyPath path (k + 2))) := by
  intro i hi hnone
  have hne : historyPath path (i + 2) ≠ historyPath path (k + 2) :=
    historyPath_ne_of_lt (by omega)
  rcases Nat.lt_or_ge (i + 1) k with hlt | hge
  · rw [h.rename_other (historyPath_ne_of_lt (by omega)) (historyPath_ne_of_lt (by omega))] at hnone
    rw [h.rename_other (historyPath_ne_of_lt (by omega)) hne]
    exact h i (by omega) hnone
  · obtain rfl : k = i + 1 := by omega
    rw [fsRename_good (h (i + 1) (by omega)), Function.update_of_ne hne, Function.update_self]

private theorem shiftHistory_other (hgap : Gapless path k files) {q : Bytes}
    (hq : ∀ i ≤ k, q ≠ historyPath path (i + 1)) :
    shiftHistory .good path k files q = files q := by
  induction k generalizing files with
  | zero => rfl
  | succ k ih =>
    rw [shiftHistory, ih hgap.rename fun i hi => hq i (by omega)]
    exact hgap.rename_other (hq k (by omega)) (hq (k + 1) le_rfl)

private theorem shiftHistory_next (hgap : Gapless path k files) {i : Nat} (hi : i < k) :
    shiftHistory .good path k files (historyPath path (i + 2)) =
      files (historyPath path (i + 1)) := by
  induction k generalizing files with
  | zero => omega
  | succ k ih =>
    rw [shiftHistory]
    rcases Nat.lt_or_ge i k with hlt | hge
    · rw [ih hgap.rename hlt]
      exact hgap.rename_other (historyPath_ne_of_lt (by omega)) (historyPath_ne_of_lt (by omega))
    · obtain rfl : i = k := by omega
      rw [shiftHistory_other hgap.rename fun j hj => (historyPath_ne_of_lt (by omega)).symm,
        fsRename_good (hgap i hi), Function.update_self]

end Renaming

/-- The largest file that a file system can hold: its size is a signed 64-bit number. -/
def largestFile : Nat := 2^63 - 1

/-- A log call all of whose renames, opens and writes succeed. -/
structure Logger.Step (logger : Logger) (call : LogCall) (logger' : Logger) : Prop where
  ok : logger.log .good call = (.ok (), logger')
  fits : ∀ name content, logger'.files name = some content → content.length ≤ largestFile

/-- The lines of the calls whose level is enabled. -/
def linesOf (level : LogLevel) (calls : List LogCall) : List Bytes :=
  (calls.filter fun call => level.toNat ≤ call.level.toNat).map LogCall.line

/-- The history files and the log file hold these lines; the history starts with the newest. -/
structure Logger.Holds (logger : Logger) (path : Bytes) (level : LogLevel) (policy : RotatePolicy)
    (history : List (List Bytes)) (current : List Bytes) : Prop where
  isOpen : logger.isOpen = true
  path_eq : logger.path = path
  level_eq : logger.level = level
  policy_eq : logger.policy = policy
  file : logger.files path = some current.flatten
  history_file : ∀ i, logger.files (historyPath path (i + 1)) = history[i]?.map List.flatten
  keeps : history.length ≤ policy.keepFiles.toInt.toNat
  bytes : logger.currentBytes.toNat = current.flatten.length
  single : ∀ lines ∈ current :: history, policy.maxFileBytes.toNat ≤ lines.flatten.length →
    ∃ line, lines = [line]

variable {logger logger' : Logger} {path : Bytes} {level : LogLevel} {policy : RotatePolicy}
  {history : List (List Bytes)} {current : List Bytes}

/-- A rotation makes the log file the newest history file and drops the oldest beyond the number
to keep. -/
private theorem Logger.Holds.rotate (h : logger.Holds path level policy history current)
    (hkeep : 1 ≤ policy.keepFiles.toInt) (hmax : 1 ≤ policy.maxFileBytes.toNat) {n : UInt64}
    (hfull : ¬ logger.currentBytes + n < policy.maxFileBytes) :
    ∃ rotated, logger.rotateIfNeeded .good n = (.ok (), rotated) ∧
      rotated.Holds path level policy ((current :: history).take policy.keepFiles.toInt.toNat)
        [] := by
  obtain ⟨k, hk⟩ : ∃ k, policy.keepFiles.toInt.toNat = k + 1 :=
    Nat.exists_eq_add_one.mpr (by omega)
  have hkeeps := h.keeps
  rw [hk] at hkeeps ⊢
  have hstart : (policy.keepFiles.toInt - 1).toNat = k := by omega
  have hgap : Gapless path k logger.files := by
    intro i _ hnone
    rw [h.history_file, Option.map_eq_none_iff, List.getElem?_eq_none_iff] at hnone ⊢
    omega
  have hpath : ∀ i, historyPath path (i + 1) ≠ path := fun i => historyPath_ne path (i + 1)
  have hfirst : path ++ ascii ".1" = historyPath path 1 := rfl
  have hshifted : shiftHistory .good path k logger.files path = some current.flatten :=
    (shiftHistory_other hgap fun i _ => (hpath i).symm).trans h.file
  let files := Function.update (Function.update
    (Function.update (shiftHistory .good path k logger.files) path none)
    (historyPath path 1) (some current.flatten)) path (some [])
  have hhistory : ∀ i, files (historyPath path (i + 1)) =
      ((current :: history).take (k + 1))[i]?.map List.flatten := by
    intro i
    refine (Function.update_of_ne (hpath i) _ _).trans ?_
    cases i with
    | zero => exact Function.update_self _ _ _
    | succ i =>
      rw [Function.update_of_ne (historyPath_ne_of_lt (by omega)).symm,
        Function.update_of_ne (hpath (i + 1))]
      rcases Nat.lt_or_ge i k with hlt | hge
      · rw [List.getElem?_take_of_lt (by omega), List.getElem?_cons_succ]
        exact (shiftHistory_next hgap hlt).trans (h.history_file i)
      · rw [List.getElem?_eq_none (by rw [List.length_take]; omega)]
        refine (shiftHistory_other hgap fun j hj =>
          (historyPath_ne_of_lt (by omega)).symm).trans ?_
        rw [h.history_file, List.getElem?_eq_none (by omega)]
  refine ⟨{ logger with files, currentBytes := 0 }, ?_, h.isOpen, h.path_eq, h.level_eq,
    h.policy_eq, Function.update_self _ _ _, hhistory, ?_, rfl, ?_⟩
  · rw [rotateIfNeeded, h.policy_eq, if_neg (not_or.mpr ⟨not_not.mpr h.isOpen, hfull⟩)]
    have hsome : shiftHistory .good path k logger.files path ≠ none := by
      rw [hshifted]
      exact Option.some_ne_none _
    dsimp only
    rw [h.path_eq, hstart, hfirst, fsRename_good (absurd · hsome), hshifted]
    exact if_pos rfl
  · rw [List.length_take, hk]
    exact Nat.min_le_left _ _
  · intro lines hlines hsize
    rcases List.mem_cons.mp hlines with rfl | hlines
    · rw [List.flatten_nil, List.length_nil] at hsize
      omega
    · exact h.single lines (List.mem_of_mem_take hlines) hsize

theorem Logger.Holds.write {line : Bytes} (h : logger.Holds path level policy history current)
    (hfits : current.flatten.length + line.length < 2^64)
    (hroom : current = [] ∨ current.flatten.length + line.length < policy.maxFileBytes.toNat) :
    ({ logger with
      files := Function.update logger.files logger.path
        (some ((logger.files logger.path).getD [] ++ line))
      currentBytes := logger.currentBytes + line.length.toUInt64 } : Logger).Holds path level policy
        history (current ++ [line]) := by
  have hpath : ∀ i, historyPath path (i + 1) ≠ path := fun i => historyPath_ne path (i + 1)
  have hflatten : (current ++ [line]).flatten = current.flatten ++ line := by simp
  refine ⟨h.isOpen, h.path_eq, h.level_eq, h.policy_eq, ?_, ?_, h.keeps, ?_, ?_⟩
  · rw [h.path_eq, h.file, hflatten]
    exact Function.update_self _ _ _
  · intro i
    rw [h.path_eq]
    exact (Function.update_of_ne (hpath i) _ _).trans (h.history_file i)
  · rw [hflatten, List.length_append]
    dsimp only
    have hline : line.length.toUInt64.toNat = line.length :=
      UInt64.toNat_ofNat_of_lt' (by rw [UInt64.size]; omega)
    rw [UInt64.toNat_add, h.bytes, hline, Nat.mod_eq_of_lt hfits]
  · intro lines hlines hsize
    rcases List.mem_cons.mp hlines with rfl | hlines
    · rcases hroom with rfl | hroom
      · exact ⟨line, rfl⟩
      · rw [hflatten, List.length_append] at hsize
        omega
    · exact h.single lines (List.mem_cons_of_mem _ hlines) hsize

private theorem Logger.Holds.size_le {line : Bytes}
    (h : logger.Holds path level policy history current)
    (hfits : ((logger.files logger.path).getD [] ++ line).length ≤ largestFile) :
    current.flatten.length + line.length < 2^63 := by
  rw [h.path_eq, h.file, Option.getD_some, List.length_append, largestFile] at hfits
  omega

/-- The lines in the files, the oldest first. -/
def keptLines (history : List (List Bytes)) (current : List Bytes) : List Bytes :=
  (history.reverse ++ [current]).flatten

private theorem keptLines_take (history : List (List Bytes)) (current : List Bytes) (n : Nat) :
    ∃ lost, keptLines history current = lost ++ keptLines ((current :: history).take n) [] := by
  refine ⟨((current :: history).drop n).reverse.flatten, ?_⟩
  have hsplit : (current :: history).reverse =
      ((current :: history).drop n).reverse ++ ((current :: history).take n).reverse := by
    rw [← List.reverse_append, List.take_append_drop]
  rw [List.reverse_cons] at hsplit
  simp [keptLines, hsplit]

private theorem keptLines_concat (history : List (List Bytes)) (current : List Bytes)
    (line : Bytes) :
    keptLines history (current ++ [line]) = keptLines history current ++ [line] := by
  simp [keptLines]

private theorem linesOf_append (level : LogLevel) (calls calls' : List LogCall) :
    linesOf level (calls ++ calls') = linesOf level calls ++ linesOf level calls' := by
  rw [linesOf, List.filter_append, List.map_append]
  rfl

/-- A log call adds its line to the lines in the files, of which only the oldest can be lost; the
line itself is in the log file. -/
theorem Logger.Holds.step {call : LogCall} (h : logger.Holds path level policy history current)
    (hkeep : 1 ≤ policy.keepFiles.toInt) (hmax : 1 ≤ policy.maxFileBytes.toNat)
    (hstep : logger.Step call logger') :
    ∃ history' current' lost, logger'.Holds path level policy history' current' ∧
      keptLines history current ++ linesOf level [call] = lost ++ keptLines history' current' ∧
      (current' = [] → current = [] ∧ linesOf level [call] = []) := by
  obtain ⟨hok, hfits⟩ := hstep
  rw [log, h.level_eq] at hok
  rcases Nat.lt_or_ge call.level.toNat level.toNat with hlow | henabled
  · rw [if_pos hlow] at hok
    cases hok
    have hnone : linesOf level [call] = [] := by
      rw [linesOf, List.filter_cons_of_neg (by simpa using hlow)]
      rfl
    refine ⟨history, current, [], h, ?_, fun hnil => ⟨hnil, hnone⟩⟩
    rw [hnone, List.append_nil, List.nil_append]
  have hline : linesOf level [call] = [call.line] := by
    rw [linesOf, List.filter_cons_of_pos (by simpa using henabled)]
    rfl
  rw [if_neg (Nat.not_lt.mpr henabled), if_neg (not_not.mpr h.isOpen), call.fputs_line] at hok
  by_cases hroom : logger.currentBytes + call.line.length.toUInt64 < policy.maxFileBytes
  · rw [rotateIfNeeded, h.policy_eq, if_pos (.inr hroom)] at hok
    cases hok
    have hsize := h.size_le (hfits _ _ (Function.update_self _ _ _))
    have hline64 : call.line.length.toUInt64.toNat = call.line.length :=
      UInt64.toNat_ofNat_of_lt' (by rw [UInt64.size]; omega)
    rw [UInt64.lt_iff_toNat_lt, UInt64.toNat_add, h.bytes, hline64,
      Nat.mod_eq_of_lt (by omega)] at hroom
    refine ⟨history, current ++ [call.line], [], h.write (by omega) (.inr hroom), ?_,
      fun hnil => absurd hnil (List.append_ne_nil_of_right_ne_nil _ (List.cons_ne_nil _ _))⟩
    rw [hline, keptLines_concat, List.nil_append]
  · obtain ⟨rotated, hrotate, hrotated⟩ := h.rotate hkeep hmax hroom
    rw [hrotate] at hok
    cases hok
    have hsize := hrotated.size_le (hfits _ _ (Function.update_self _ _ _))
    obtain ⟨lost, hlost⟩ := keptLines_take history current policy.keepFiles.toInt.toNat
    refine ⟨_, [call.line], lost, hrotated.write (by omega) (.inl rfl), ?_,
      fun hnil => absurd hnil (List.cons_ne_nil _ _)⟩
    rw [hline, hlost, List.append_assoc, ← keptLines_concat, List.nil_append]

private theorem Logger.open_holds (hpath : path ≠ []) (hempty : ∀ name, logger.files name = none)
    (hmax : 1 ≤ policy.maxFileBytes.toNat)
    (hopen : logger.open .good path level policy = (.ok (), logger')) :
    logger'.Holds path level policy [] [] := by
  rw [Logger.open] at hopen
  dsimp only at hopen
  rw [if_neg hpath] at hopen
  rcases hdirs : FileResults.good.createDirectories (parentPath path) with e | u
  · rw [hdirs] at hopen
    cases hopen
  rw [hdirs, hempty] at hopen
  cases hopen
  refine ⟨rfl, rfl, rfl, rfl, Function.update_self _ _ _, fun i => ?_, Nat.zero_le _, rfl, ?_⟩
  · exact (Function.update_of_ne (historyPath_ne path (i + 1)) _ _).trans (hempty _)
  · intro lines hlines hsize
    obtain rfl := List.mem_singleton.mp hlines
    rw [List.flatten_nil, List.length_nil] at hsize
    omega

/-- The invariant of a run of log calls. -/
private theorem Logger.holds_run {logger₀ : Logger} {calls : List LogCall} (hpath : path ≠ [])
    (hempty : ∀ name, logger₀.files name = none) (hkeep : 1 ≤ policy.keepFiles.toInt)
    (hmax : 1 ≤ policy.maxFileBytes.toNat)
    (hopen : logger₀.open .good path level policy = (.ok (), logger))
    (hrun : Trace.Run Logger.Step logger calls logger') :
    ∃ history current lost, logger'.Holds path level policy history current ∧
      linesOf level calls = lost ++ keptLines history current ∧
      (current = [] → linesOf level calls = []) := by
  refine hrun.history (I := fun calls logger => ∃ history current lost,
    logger.Holds path level policy history current ∧
      linesOf level calls = lost ++ keptLines history current ∧
      (current = [] → linesOf level calls = [])) ?_ ?_
  · rintro done call rest logger logger' - ⟨history, current, lost, hholds, hlines, hnew⟩ hstep
    obtain ⟨history', current', lost', hholds', hlines', hnew'⟩ := hholds.step hkeep hmax hstep
    refine ⟨history', current', lost ++ lost', hholds', ?_, fun hnil => ?_⟩
    · rw [linesOf_append, hlines, List.append_assoc, hlines', List.append_assoc]
    · obtain ⟨hnone, hcall⟩ := hnew' hnil
      rw [linesOf_append, hnew hnone, hcall, List.nil_append]
  · exact ⟨[], [], [], Logger.open_holds hpath hempty hmax hopen, rfl, fun _ => rfl⟩

/-- The contents of the first `n` history files and of the log file, the oldest first. -/
def logContents (logger : Logger) (path : Bytes) (n : Nat) : List (Option Bytes) :=
  ((List.range n).map fun i => logger.files (historyPath path (i + 1))).reverse ++
    [logger.files path]

theorem Logger.Holds.contents (h : logger.Holds path level policy history current) :
    logContents logger path history.length =
      (history.reverse ++ [current]).map fun lines => some lines.flatten := by
  have hhistory :
      (List.range history.length).map (fun i => logger.files (historyPath path (i + 1))) =
      history.map fun lines => some lines.flatten := by
    refine List.ext_getElem (by simp) fun i hi _ => ?_
    have hi : i < history.length := by simpa using hi
    rw [List.getElem_map, List.getElem_map, List.getElem_range, h.history_file,
      List.getElem?_eq_getElem hi]
    rfl
  rw [logContents, hhistory, h.file, List.map_append, List.map_reverse]
  rfl

/-- No file is larger. -/
def FilesWithin (files : Bytes → Option Bytes) (size : Nat) : Prop :=
  ∀ name content, files name = some content → content.length ≤ size

section Fits

variable {files : Bytes → Option Bytes} {size : Nat}

theorem FilesWithin.update (h : FilesWithin files size) {name : Bytes} {content? : Option Bytes}
    (hcontent : ∀ content, content? = some content → content.length ≤ size) :
    FilesWithin (Function.update files name content?) size := by
  intro q content hq
  rcases eq_or_ne q name with rfl | hne
  · rw [Function.update_self] at hq
    exact hcontent content hq
  · rw [Function.update_of_ne hne] at hq
    exact h q content hq

theorem FilesWithin.mono {size' : Nat} (h : FilesWithin files size) (hle : size ≤ size') :
    FilesWithin files size' := fun name content hname => (h name content hname).trans hle

theorem FilesWithin.fsRename (h : FilesWithin files size) (io : FileResults) (src dst : Bytes) :
    FilesWithin (fsRename io files src dst) size := by
  rw [ForgeRelay.fsRename]
  cases hsrc : files src with
  | none => exact h
  | some content =>
    dsimp only
    split
    · refine (h.update (by rintro _ ⟨⟩)).update fun content' hcontent => ?_
      cases hcontent
      exact h src content hsrc
    · exact h

theorem FilesWithin.shiftHistory (h : FilesWithin files size) (io : FileResults) (path : Bytes)
    (k : Nat) : FilesWithin (shiftHistory io path k files) size := by
  induction k generalizing files with
  | zero => exact h
  | succ k ih => exact ih (h.fsRename io _ _)

end Fits

private theorem Logger.rotateIfNeeded_fits {size : Nat} (h : FilesWithin logger.files size)
    (n : UInt64) :
    ∃ rotated, logger.rotateIfNeeded .good n = (.ok (), rotated) ∧
      FilesWithin rotated.files size := by
  rw [rotateIfNeeded]
  split
  · exact ⟨logger, rfl, h⟩
  · refine ⟨_, if_pos rfl, ?_⟩
    refine ((h.shiftHistory _ _ _).fsRename _ _ _).update fun content hcontent => ?_
    cases hcontent
    exact Nat.zero_le _

private theorem Logger.log_fits {size : Nat} (h : FilesWithin logger.files size) (call : LogCall) :
    ∃ logger', logger.log .good call = (.ok (), logger') ∧
      FilesWithin logger'.files (size + call.line.length) := by
  have hmono := h.mono (Nat.le_add_right size call.line.length)
  rw [log]
  split
  · exact ⟨logger, rfl, hmono⟩
  · split
    · exact ⟨_, rfl, hmono⟩
    · obtain ⟨rotated, hrotate, hrotated⟩ := rotateIfNeeded_fits h call.line.length.toUInt64
      rw [hrotate]
      refine ⟨_, rfl, (hrotated.mono (Nat.le_add_right _ _)).update fun content hcontent => ?_⟩
      cases hcontent
      rw [List.length_append, call.fputs_line]
      refine Nat.add_le_add_right ?_ _
      cases hfile : rotated.files rotated.path with
      | none => exact Nat.zero_le _
      | some content => exact hrotated _ _ hfile

theorem Logger.exists_run {size : Nat} {calls : List LogCall} (h : FilesWithin logger.files size)
    (hsize : size + (calls.map fun call => call.line.length).sum ≤ largestFile) :
    ∃ logger', Trace.Run Logger.Step logger calls logger' := by
  induction calls generalizing logger size with
  | nil => exact ⟨logger, .nil _⟩
  | cons call calls ih =>
    rw [List.map_cons, List.sum_cons] at hsize
    obtain ⟨logger', hok, hfits⟩ := log_fits h call
    obtain ⟨logger'', hrun⟩ := ih hfits (by omega)
    exact ⟨logger'', .cons ⟨hok, hfits.mono (by omega)⟩ hrun⟩

/-- After every sequence of log calls into an empty directory, the history files are numbered from
1 on and are at most as many as are kept; with the log file they hold, in order, the last of all
lines written, the newest always among them; and a file that has reached the largest size is a
single line. -/
theorem log_rotation_exact {logger₀ : Logger} {calls : List LogCall} (hpath : path ≠ [])
    (hempty : ∀ name, logger₀.files name = none) (hkeep : 1 ≤ policy.keepFiles.toInt)
    (hmax : 1 ≤ policy.maxFileBytes.toNat)
    (hopen : logger₀.open .good path level policy = (.ok (), logger))
    (hrun : Trace.Run Logger.Step logger calls logger') :
    ∃ n : Nat, n ≤ policy.keepFiles.toInt ∧
      (∀ i, (logger'.files (historyPath path (i + 1))).isSome ↔ i < n) ∧
      ∃ (lost : List Bytes) (files : List (List Bytes)),
        linesOf level calls = lost ++ files.flatten ∧
        (linesOf level calls).getLast? = files.flatten.getLast? ∧
        logContents logger' path n = files.map (fun lines => some lines.flatten) ∧
        ∀ lines ∈ files, policy.maxFileBytes.toNat ≤ lines.flatten.length →
          ∃ line, lines = [line] := by
  obtain ⟨history, current, lost, hholds, hlines, hnew⟩ :=
    Logger.holds_run hpath hempty hkeep hmax hopen hrun
  have hkeeps := hholds.keeps
  refine ⟨history.length, by omega, fun i => ?_, lost, history.reverse ++ [current], hlines, ?_,
    hholds.contents, fun lines hmem => hholds.single lines ?_⟩
  · rw [hholds.history_file]
    simp
  · change _ = (keptLines history current).getLast?
    rw [hlines]
    by_cases hnil : keptLines history current = []
    · have hcurrent : current = [] := by
        rw [keptLines, List.flatten_append, List.flatten_singleton] at hnil
        exact (List.append_eq_nil_iff.mp hnil).2
      rw [← hlines, hnew hcurrent, hnil]
    · exact List.getLast?_append_of_ne_nil _ hnil
  · simpa [or_comm] using hmem

/-- The logger before it is opened. -/
def newLogger : Logger := ⟨[], false, .info, ⟨104857600, 5⟩, 0, fun _ => none, []⟩

/-- Three lines, each longer than a file may get, with one history file. -/
theorem log_rotation_exact_sample : ∃ logger logger',
    newLogger.open .good (ascii "/var/log/fr.log") .info ⟨20, 1⟩ = (.ok (), logger) ∧
    Trace.Run Logger.Step logger [forgedCall, forgedCall, forgedCall] logger' ∧
    ∃ n : Nat, (n : Int) ≤ 1 ∧ ∃ (lost : List Bytes) (files : List (List Bytes)),
      linesOf .info [forgedCall, forgedCall, forgedCall] = lost ++ files.flatten ∧
      files.flatten.getLast? = some forgedCall.line ∧
      logContents logger' (ascii "/var/log/fr.log") n =
        files.map fun lines => some lines.flatten := by
  obtain ⟨logger, hopen, hlogger⟩ : ∃ logger,
      newLogger.open .good (ascii "/var/log/fr.log") .info ⟨20, 1⟩ = (.ok (), logger) ∧
        logger.files = Function.update newLogger.files (ascii "/var/log/fr.log") (some []) :=
    ⟨_, rfl, rfl⟩
  have hfits : FilesWithin logger.files 0 := by
    rw [hlogger]
    refine FilesWithin.update (by rintro _ _ ⟨⟩) fun content hcontent => ?_
    cases hcontent
    exact le_rfl
  have hsize : 0 + ([forgedCall, forgedCall, forgedCall].map fun call => call.line.length).sum ≤
      largestFile := by decide +kernel
  obtain ⟨logger', hrun⟩ := Logger.exists_run hfits hsize
  obtain ⟨n, hn, -, lost, files, hlines, hlast, hcontents, -⟩ := log_rotation_exact (by decide)
    (fun _ => rfl) (by decide) (by decide) hopen hrun
  exact ⟨logger, logger', hopen, hrun, n, hn, lost, files, hlines, hlast.symm, hcontents⟩

end ForgeRelay
