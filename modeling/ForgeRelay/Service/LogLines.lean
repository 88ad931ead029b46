import ForgeRelay.Lib.Quoting
import ForgeRelay.Service.Logger

/-!
# Log lines

Whatever bytes a message, a request id, keys and values have, a call writes one line, and its
strings are those of the call.
-/

namespace ForgeRelay

open Quoting

/-- What an escape of one character stands for. -/
def shortEscape (c : UInt8) : Option UInt8 :=
  if c = 34 then some 34
  else if c = 92 then some 92
  else if c = 110 then some 10
  else if c = 114 then some 13
  else if c = 116 then some 9
  else none

/-- The bytes that a JSON string stands for, with the escapes of `json_escape`. -/
def jsonUnescape : Bytes → Option Bytes
  | [] => some []
  | c :: rest =>
    if c ≠ 92 then (jsonUnescape rest).map (c :: ·)
    else
      match rest with
      | [] => none
      | 117 :: 48 :: 48 :: hi :: lo :: rest =>
        match hexDecodePairs [hi, lo] with
        | .ok raw => (jsonUnescape rest).map (raw ++ ·)
        | .error _ => none
      | d :: rest => do
        let c ← shortEscape d
        (jsonUnescape rest).map (c :: ·)

private theorem jsonUnescape_escapeByte (c : UInt8) (rest : Bytes) :
    jsonUnescape (jsonEscapeByte c ++ rest) = (jsonUnescape rest).map (c :: ·) := by
  unfold jsonEscapeByte
  split_ifs with hquote hbackslash hnewline hreturn htab hcontrol
  · simp [jsonUnescape, shortEscape, hquote]
  · simp [jsonUnescape, shortEscape, hbackslash]
  · simp [jsonUnescape, shortEscape, hnewline]
  · simp [jsonUnescape, shortEscape, hreturn]
  · simp [jsonUnescape, shortEscape, htab]
  · have hpair : hexDecodePairs (hexByte c) = .ok [c] := hexDecodePairs_encode [c]
    rw [hexByte] at hpair
    change jsonUnescape (92 :: 117 :: 48 :: 48 :: hexDigit _ :: hexDigit _ :: rest) = _
    rw [jsonUnescape, if_neg (by decide), hpair]
    rfl
  · rw [List.singleton_append, jsonUnescape.eq_def]
    exact if_pos hbackslash

private theorem jsonUnescape_escape (s : Bytes) : jsonUnescape (jsonEscape s) = some s := by
  induction s with
  | nil => rfl
  | cons c s ih =>
    rw [jsonEscape, List.flatMap_cons, jsonUnescape_escapeByte]
    exact congrArg (Option.map (c :: ·)) ih

private theorem hexByte_lower {c b : UInt8} (hb : b ∈ hexByte c) : isLowerHex b = true :=
  frHexEncode_lower [c] b (List.mem_append_left [] hb)

private theorem jsonEscapeByte_whole (c : UInt8) : Whole 34 92 .inside (jsonEscapeByte c) := by
  unfold jsonEscapeByte
  split_ifs with hquote hbackslash hnewline hreturn htab hcontrol
  · exact whole_escape 34 (by decide)
  · exact whole_escape 92 (by decide)
  · exact whole_escape 110 (by decide)
  · exact whole_escape 114 (by decide)
  · exact whole_escape 116 (by decide)
  · have hhead : Whole (34 : UInt8) 92 .inside (ascii "\\u00") := rfl
    refine hhead.append (whole_inside ?_ ?_)
    · exact fun hmem => absurd (hexByte_lower hmem) (by decide)
    · exact fun hmem => absurd (hexByte_lower hmem) (by decide)
  · exact whole_inside (by simpa using Ne.symm hquote) (by simpa using Ne.symm hbackslash)

private theorem jsonEscape_whole (s : Bytes) : Whole 34 92 .inside (jsonEscape s) :=
  whole_flatMap jsonEscapeByte_whole s

/-- No byte of it is a control character. -/
def Printable (s : Bytes) : Prop := ∀ b ∈ s, 0x20 ≤ b

instance (s : Bytes) : Decidable (Printable s) := List.decidableBAll (0x20 ≤ ·) s

theorem Printable.append {s t : Bytes} (hs : Printable s) (ht : Printable t) :
    Printable (s ++ t) := fun b hb => (List.mem_append.mp hb).elim (hs b) (ht b)

private theorem lowerHex_printable {b : UInt8} (hb : isLowerHex b = true) : 0x20 ≤ b := by
  simp only [isLowerHex, Bool.or_eq_true, Bool.and_eq_true, decide_eq_true_eq] at hb
  rcases hb with hdigit | hletter
  · exact UInt8.le_trans (by decide) hdigit.1
  · exact UInt8.le_trans (by decide) hletter.1

private theorem jsonEscapeByte_printable (c : UInt8) : Printable (jsonEscapeByte c) := by
  unfold jsonEscapeByte
  split_ifs with hquote hbackslash hnewline hreturn htab hcontrol
  · decide
  · decide
  · decide
  · decide
  · decide
  · have hhead : Printable (ascii "\\u00") := by decide
    exact hhead.append fun b hb => lowerHex_printable (hexByte_lower hb)
  · intro b hb
    rw [List.mem_singleton.mp hb]
    exact UInt8.not_lt.mp hcontrol

private theorem jsonEscape_printable (s : Bytes) : Printable (jsonEscape s) := by
  intro b hb
  obtain ⟨c, -, hb⟩ := List.mem_flatMap.mp hb
  exact jsonEscapeByte_printable c b hb

namespace LogCall

variable (call : LogCall)

/-- A name and its string: what stands before each of the two, and what they are. -/
def field (separator name value : Bytes) : List (Bytes × Bytes) :=
  [(separator, name), (ascii ":", value)]

/-- The strings that the logger writes, each with what stands before it. -/
def parts : List (Bytes × Bytes) :=
  [(ascii "\x7b", ascii "ts"),
    (ascii ":" ++ decimal call.now.toInt ++ ascii ",", ascii "level"),
    (ascii ":", logLevelName call.level)] ++
  (field (ascii ",") (ascii "msg") (jsonEscape call.message) ++
    ((if call.requestId ≠ [] then
        field (ascii ",") (ascii "req_id") (jsonEscape call.requestId)
      else []) ++
      (call.pairs.take 8).flatMap fun pair =>
        field (ascii ",") (jsonEscape (cString pair.1)) (jsonEscape pair.2)))

/-- The strings of the call: names and values in order. -/
def strings : List Bytes :=
  [ascii "ts", ascii "level", logLevelName call.level, ascii "msg", call.message] ++
    ((if call.requestId ≠ [] then [ascii "req_id", call.requestId] else []) ++
      (call.pairs.take 8).flatMap fun pair => [cString pair.1, pair.2])

private theorem quoted_field (separator name value rest : Bytes) :
    quoted 34 (field separator name value) rest =
      separator ++ 34 :: (name ++ ascii "\":\"" ++ value ++ 34 :: rest) := by
  simp [quoted, field, ascii]

private theorem quoted_pairs (pairs : List (Bytes × Bytes)) (rest : Bytes) :
    quoted 34 (pairs.flatMap fun pair =>
        field (ascii ",") (jsonEscape (cString pair.1)) (jsonEscape pair.2)) rest =
      pairs.flatMap (fun pair => ascii ",\"" ++ jsonEscape (cString pair.1) ++ ascii "\":\"" ++
        jsonEscape pair.2 ++ ascii "\"") ++ rest := by
  induction pairs with
  | nil => rfl
  | cons pair pairs ih =>
    rw [List.flatMap_cons, quoted_append, ih, quoted_field, List.flatMap_cons]
    simp [ascii]

private theorem line_eq : call.line = quoted 34 call.parts (ascii "\x7d\n") := by
  have hfold : ∀ (pairs : List (Bytes × Bytes)) (start : Bytes), pairs.foldl (fun line pair =>
      line ++ ascii ",\"" ++ jsonEscape (cString pair.1) ++ ascii "\":\"" ++ jsonEscape pair.2 ++
        ascii "\"") start =
      start ++ pairs.flatMap fun pair => ascii ",\"" ++ jsonEscape (cString pair.1) ++
        ascii "\":\"" ++ jsonEscape pair.2 ++ ascii "\"" := by
    intro pairs start
    rw [List.flatMap_def, ← List.foldl_append_eq_append]
    simp only [List.append_assoc]
  rw [line, parts, hfold, quoted_append, quoted_append, quoted_append, quoted_field, quoted_pairs]
  by_cases hid : call.requestId = []
  · rw [if_neg (not_not.mpr hid), if_neg (not_not.mpr hid)]
    simp [quoted, ascii]
  · rw [if_pos hid, if_pos hid, quoted_field]
    simp [quoted, ascii]

private theorem decimal_plain (n : Int) : Printable (decimal n) ∧ 34 ∉ decimal n := by
  have hbyte : ∀ b ∈ decimal n, 0x20 ≤ b ∧ b ≠ 34 := by
    intro b hb
    rcases decimal_byte hb with rfl | hdigit
    · decide
    · refine ⟨UInt8.le_trans (by decide) hdigit.1, ?_⟩
      rintro rfl
      exact absurd hdigit.1 (by decide)
  exact ⟨fun b hb => (hbyte b hb).1, fun hmem => (hbyte 34 hmem).2 rfl⟩

private theorem logLevelName_plain (level : LogLevel) :
    Printable (logLevelName level) ∧ 34 ∉ logLevelName level ∧ 92 ∉ logLevelName level := by
  cases level <;> decide

private theorem forall_parts {P : Bytes × Bytes → Prop} (hts : P (ascii "\x7b", ascii "ts"))
    (hlevel : P (ascii ":" ++ decimal call.now.toInt ++ ascii ",", ascii "level"))
    (hname : P (ascii ":", logLevelName call.level)) (hmsg : P (ascii ",", ascii "msg"))
    (hid : P (ascii ",", ascii "req_id")) (hcomma : ∀ s, P (ascii ",", jsonEscape s))
    (hcolon : ∀ s, P (ascii ":", jsonEscape s)) : ∀ part ∈ call.parts, P part := by
  have hfield : ∀ {name : Bytes} (s : Bytes), P (ascii ",", name) →
      ∀ part ∈ field (ascii ",") name (jsonEscape s), P part := by
    intro name s hname part hpart
    rcases List.mem_cons.mp hpart with rfl | hpart
    · exact hname
    · exact List.mem_singleton.mp hpart ▸ hcolon s
  intro part hpart
  rcases List.mem_append.mp hpart with hpart | hpart
  · simp only [List.mem_cons, List.not_mem_nil, or_false] at hpart
    rcases hpart with rfl | rfl | rfl
    · exact hts
    · exact hlevel
    · exact hname
  rcases List.mem_append.mp hpart with hpart | hpart
  · exact hfield _ hmsg part hpart
  rcases List.mem_append.mp hpart with hpart | hpart
  · split at hpart
    · exact hfield _ hid part hpart
    · cases hpart
  · obtain ⟨pair, -, hpart⟩ := List.mem_flatMap.mp hpart
    exact hfield _ (hcomma _) part hpart

private theorem parts_whole : ∀ part ∈ call.parts,
    Whole 34 92 .outside part.1 ∧ Whole 34 92 .inside part.2 := by
  refine call.forall_parts ⟨rfl, rfl⟩ ⟨?_, rfl⟩ ⟨rfl, ?_⟩ ⟨rfl, rfl⟩ ⟨rfl, rfl⟩
    (fun s => ⟨rfl, jsonEscape_whole s⟩) (fun s => ⟨rfl, jsonEscape_whole s⟩)
  · have hnow : Whole 34 92 .outside (decimal call.now.toInt) :=
      whole_outside (decimal_plain _).2
    have hcolon : Whole (34 : UInt8) 92 .outside (ascii ":") := rfl
    exact (hcolon.append hnow).append rfl
  · obtain ⟨-, hquote, hescape⟩ := logLevelName_plain call.level
    exact whole_inside hquote hescape

private theorem parts_printable : ∀ part ∈ call.parts, Printable part.1 ∧ Printable part.2 := by
  have hcolon : Printable (ascii ":") := by decide
  have hcomma : Printable (ascii ",") := by decide
  have hlevel : Printable (ascii "level") := by decide
  exact call.forall_parts (by decide) ⟨(hcolon.append (decimal_plain _).1).append hcomma, hlevel⟩
    ⟨hcolon, (logLevelName_plain call.level).1⟩ (by decide) (by decide)
    (fun s => ⟨hcomma, jsonEscape_printable s⟩) (fun s => ⟨hcolon, jsonEscape_printable s⟩)

private theorem line_printable : ∃ body, call.line = body ++ [10] ∧ Printable body := by
  refine ⟨quoted 34 call.parts (ascii "\x7d"), ?_, ?_⟩
  · rw [line_eq, quoted, quoted, List.append_assoc]
    rfl
  · refine Printable.append (fun b hb => ?_) (by decide)
    obtain ⟨part, hpart, hb⟩ := List.mem_flatMap.mp hb
    obtain ⟨hbefore, hstring⟩ := call.parts_printable part hpart
    have hquote : Printable [34] := by decide
    exact ((hbefore.append (hquote.append hstring)).append hquote) b (by simpa using hb)

theorem fputs_line : fputs call.line = call.line := by
  obtain ⟨body, hline, hbody⟩ := call.line_printable
  refine List.takeWhile_eq_self_iff.mpr fun b hb => ?_
  rw [hline] at hb
  refine decide_eq_true ?_
  rintro rfl
  rcases List.mem_append.mp hb with hb | hb
  · exact absurd (hbody 0 hb) (by decide)
  · exact absurd hb (by decide)

end LogCall

/-- The strings among the pieces of a line, which stand at every second place. -/
def readStrings : List Bytes → Option (List Bytes)
  | _ :: string :: rest => do
    let string ← jsonUnescape string
    let strings ← readStrings rest
    return string :: strings
  | _ => some []

/-- A reader of log lines: the line is cut at its delimiters and escapes are undone. -/
def readLine (line : Bytes) : Option (List Bytes) := readStrings (pieces 34 92 .outside line)

/-- The escaped string of a part stands for this string. -/
def Escapes (part : Bytes × Bytes) (string : Bytes) : Prop := jsonUnescape part.2 = some string

private theorem readStrings_parts {parts : List (Bytes × Bytes)} {strings : List Bytes}
    {rest : Bytes} (h : List.Forall₂ Escapes parts strings) :
    readStrings (parts.flatMap (fun part => [part.1, part.2]) ++ [rest]) = some strings := by
  induction h with
  | nil => rfl
  | cons hpart _ ih =>
    rw [List.flatMap_cons, List.append_assoc, List.cons_append, List.cons_append, List.nil_append,
      readStrings, hpart, ih]
    rfl

namespace LogCall

private theorem id_strings (id : Bytes) : List.Forall₂ Escapes
    (if id ≠ [] then field (ascii ",") (ascii "req_id") (jsonEscape id) else [])
    (if id ≠ [] then [ascii "req_id", id] else []) := by
  have hkey : jsonUnescape (ascii "req_id") = some (ascii "req_id") := by decide +kernel
  split
  · exact .cons hkey (.cons (jsonUnescape_escape _) .nil)
  · exact .nil

private theorem pairs_strings (pairs : List (Bytes × Bytes)) : List.Forall₂ Escapes
    (pairs.flatMap fun pair =>
      field (ascii ",") (jsonEscape (cString pair.1)) (jsonEscape pair.2))
    (pairs.flatMap fun pair => [cString pair.1, pair.2]) := by
  induction pairs with
  | nil => exact .nil
  | cons pair pairs ih => exact .cons (jsonUnescape_escape _) (.cons (jsonUnescape_escape _) ih)

private theorem parts_strings (call : LogCall) : List.Forall₂ Escapes call.parts call.strings := by
  have hts : jsonUnescape (ascii "ts") = some (ascii "ts") := by decide +kernel
  have hlevel : jsonUnescape (ascii "level") = some (ascii "level") := by decide +kernel
  have hname : jsonUnescape (logLevelName call.level) = some (logLevelName call.level) := by
    cases call.level <;> decide +kernel
  have hmsg : jsonUnescape (ascii "msg") = some (ascii "msg") := by decide +kernel
  exact .cons hts (.cons hlevel (.cons hname (.cons hmsg (.cons (jsonUnescape_escape _)
    (List.rel_append (id_strings _) (pairs_strings _))))))

end LogCall

/-- The line is added to the log file, to a new one that takes its place, or to the standard error
stream. -/
def Logger.Writes (logger : Logger) (line : Bytes) (logger' : Logger) : Prop :=
  if logger.isOpen then
    ∃ before, (before = [] ∨ logger.files logger.path = some before) ∧
      logger'.files logger.path = some (before ++ line)
  else logger'.stderr = logger.stderr ++ line

private theorem Logger.rotateIfNeeded_cases {logger logger' : Logger} {io : FileResults}
    {n : UInt64} (h : logger.rotateIfNeeded io n = (.ok (), logger')) :
    logger' = logger ∨ logger'.path = logger.path ∧ logger'.files logger.path = some [] := by
  rw [rotateIfNeeded] at h
  split at h
  · cases h
    exact .inl rfl
  · split at h
    · cases h
      exact .inr ⟨rfl, Function.update_self _ _ _⟩
    · cases h

private theorem Logger.log_writes {logger logger' : Logger} {io : FileResults} {call : LogCall}
    (henabled : logger.level.toNat ≤ call.level.toNat)
    (h : logger.log io call = (.ok (), logger')) : logger.Writes (fputs call.line) logger' := by
  rw [log, if_neg (Nat.not_lt.mpr henabled)] at h
  rw [Writes]
  split at h
  · rename_i hclosed
    cases h
    rw [if_neg hclosed]
  · rename_i hopen
    rw [if_pos (not_not.mp hopen)]
    rcases hrotate : logger.rotateIfNeeded io call.line.length.toUInt64 with ⟨_ | _, rotated⟩
    · rw [hrotate] at h
      cases h
    · rw [hrotate] at h
      cases h
      rcases rotateIfNeeded_cases hrotate with rfl | ⟨hpath, hfiles⟩
      · refine ⟨(rotated.files rotated.path).getD [], ?_, Function.update_self _ _ _⟩
        cases rotated.files rotated.path with
        | none => exact .inl rfl
        | some content => exact .inr rfl
      · refine ⟨[], .inl rfl, ?_⟩
        dsimp only
        rw [hpath, hfiles]
        exact Function.update_self _ _ _

/-- Each call writes one line: its only newline is at its end and no other byte is a control
character; its delimiters are the quotes around the strings that the logger wrote; and reading it
gives the message, the request id, the keys and the values of the call. -/
theorem log_line_exact {logger logger' : Logger} {io : FileResults} {call : LogCall}
    (henabled : logger.level.toNat ≤ call.level.toNat)
    (h : logger.log io call = (.ok (), logger')) :
    ∃ line, logger.Writes line logger' ∧
      (∃ body, line = body ++ [10] ∧ ∀ b ∈ body, 0x20 ≤ b) ∧
      line = quoted 34 call.parts (ascii "\x7d\n") ∧
      pieces 34 92 .outside line =
        call.parts.flatMap (fun part => [part.1, part.2]) ++ [ascii "\x7d\n"] ∧
      readLine line = some call.strings := by
  have hpieces : pieces 34 92 .outside call.line =
      call.parts.flatMap (fun part => [part.1, part.2]) ++ [ascii "\x7d\n"] := by
    rw [call.line_eq]
    exact pieces_quoted call.parts_whole rfl
  refine ⟨call.line, ?_, call.line_printable, call.line_eq, hpieces, ?_⟩
  · rw [← call.fputs_line]
    exact Logger.log_writes henabled h
  · rw [readLine, hpieces]
    exact readStrings_parts call.parts_strings

/-- A message with a quote, a backslash, a newline and a zero. -/
def forgedCall : LogCall :=
  ⟨1700000000, .warn, [34, 44, 92, 10, 0], ascii "7", [(ascii "peer", [34])]⟩

theorem log_line_exact_forged : ∃ line,
    readLine line = some [ascii "ts", ascii "level", ascii "warn", ascii "msg", [34, 44, 92, 10, 0],
      ascii "req_id", ascii "7", ascii "peer", [34]] ∧
    ((⟨[], false, .info, ⟨100, 5⟩, 0, fun _ => none, []⟩ : Logger).log .good forgedCall).2.stderr =
      line := by
  have hlog : ((⟨[], false, .info, ⟨100, 5⟩, 0, fun _ => none, []⟩ : Logger).log .good
      forgedCall).1 = .ok () := by decide +kernel
  obtain ⟨line, hwrites, -, -, -, hread⟩ := log_line_exact (by decide) (Prod.ext hlog rfl)
  exact ⟨line, hread, hwrites⟩

end ForgeRelay
