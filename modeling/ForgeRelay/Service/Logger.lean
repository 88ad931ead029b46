import ForgeRelay.Core.Decimal
import ForgeRelay.Core.Hex
import Mathlib.Data.List.DropRight

/-!
# The log

A log call writes one JSON line to the log file, or to the standard error stream while no file is
open. A line with which the file would reach its largest size goes to a new file; the old one
becomes the first history file, and each history file the next one.
-/

namespace ForgeRelay

/-- `json_escape` of one byte. -/
def jsonEscapeByte (c : UInt8) : Bytes :=
  if c = 34 then [92, 34]
  else if c = 92 then [92, 92]
  else if c = 10 then [92, 110]
  else if c = 13 then [92, 114]
  else if c = 9 then [92, 116]
  else if c < 0x20 then ascii "\\u00" ++ hexByte c
  else [c]

def jsonEscape (s : Bytes) : Bytes := s.flatMap jsonEscapeByte

inductive LogLevel
  | trace | debug | info | warn | error
  deriving DecidableEq, Repr

/-- The value of a level in `LogLevel`. -/
def LogLevel.toNat : LogLevel → Nat
  | trace => 0
  | debug => 1
  | info => 2
  | warn => 3
  | error => 4

def logLevelName : LogLevel → Bytes
  | .trace => ascii "trace"
  | .debug => ascii "debug"
  | .info => ascii "info"
  | .warn => ascii "warn"
  | .error => ascii "error"

/-- The arguments of `Logger::log` and the clock at the call. Keys and values are given in pairs; a
key is a C string. -/
structure LogCall where
  now : Int64
  level : LogLevel
  message : Bytes
  requestId : Bytes
  pairs : List (Bytes × Bytes)
  deriving DecidableEq, Repr

/-- The line that `Logger::log` puts together. -/
def LogCall.line (call : LogCall) : Bytes :=
  let line := ascii "\x7b\"ts\":" ++ decimal call.now.toInt
  let line := line ++ ascii ",\"level\":\"" ++ logLevelName call.level
  let line := line ++ ascii "\",\"msg\":\"" ++ jsonEscape call.message ++ ascii "\""
  let line :=
    if call.requestId ≠ [] then
      line ++ ascii ",\"req_id\":\"" ++ jsonEscape call.requestId ++ ascii "\""
    else line
  let line := (call.pairs.take 8).foldl (fun line pair =>
    line ++ ascii ",\"" ++ jsonEscape (cString pair.1) ++ ascii "\":\"" ++ jsonEscape pair.2 ++
      ascii "\"") line
  line ++ ascii "\x7d\n"

/-- What `fputs` writes of a string. -/
def fputs (text : Bytes) : Bytes := cString text

structure RotatePolicy where
  maxFileBytes : UInt64
  keepFiles : Int32
  deriving DecidableEq, Repr

/-- Which of the file operations of a call succeed: renaming one file to another, opening, and
`create_directories`, which has an exception to throw if not. -/
structure FileResults where
  renames : Bytes → Bytes → Bool
  opens : Bool
  createDirectories : Bytes → Except Error Unit

/-- All of them succeed; but there is no directory with an empty path. -/
def FileResults.good : FileResults where
  renames _ _ := true
  opens := true
  createDirectories dir :=
    if dir = [] then
      .error (.std (ascii "filesystem error: cannot create directories: Invalid argument"))
    else .ok ()

def parentPath (path : Bytes) : Bytes :=
  let front := path.rdropWhile (· ≠ 47)
  let dir := front.rdropWhile (· = 47)
  if dir = [] then front else dir

/-- `Logger`, with the files and the standard error stream that it writes to. -/
structure Logger where
  path : Bytes
  isOpen : Bool
  level : LogLevel
  policy : RotatePolicy
  currentBytes : UInt64
  files : Bytes → Option Bytes
  stderr : Bytes

/-- The name of a history file. -/
def historyPath (path : Bytes) (i : Nat) : Bytes := path ++ (ascii "." ++ decimal i)

/-- `std::filesystem::rename`, whose error is ignored; there is none to rename if the file does not
exist. -/
def fsRename (io : FileResults) (files : Bytes → Option Bytes) (src dst : Bytes) :
    Bytes → Option Bytes :=
  match files src with
  | none => files
  | some content =>
    if io.renames src dst then
      Function.update (Function.update files src none) dst (some content)
    else files

/-- The loop of `rotate_if_needed_locked` from `i` on down. -/
def shiftHistory (io : FileResults) (path : Bytes) :
    Nat → (Bytes → Option Bytes) → Bytes → Option Bytes
  | 0, files => files
  | i + 1, files =>
    shiftHistory io path i (fsRename io files (historyPath path (i + 1)) (historyPath path (i + 2)))

/-- `rotate_if_needed_locked`. -/
def Logger.rotateIfNeeded (logger : Logger) (io : FileResults) (incomingBytes : UInt64) :
    Except Error Unit × Logger :=
  if ¬ logger.isOpen ∨ logger.currentBytes + incomingBytes < logger.policy.maxFileBytes then
    (.ok (), logger)
  else
    let files := shiftHistory io logger.path (logger.policy.keepFiles.toInt - 1).toNat logger.files
    let files := fsRename io files logger.path (logger.path ++ ascii ".1")
    if io.opens then
      (.ok (), { logger with
        files := Function.update files logger.path (some []), currentBytes := 0 })
    else
      (.error (.of .eIo "reopen log file after rotation failed"),
        { logger with files, isOpen := false })

def Logger.open (logger : Logger) (io : FileResults) (path : Bytes) (level : LogLevel)
    (policy : RotatePolicy) : Except Error Unit × Logger :=
  let logger := { logger with level, policy, isOpen := false }
  if path = [] then (.ok (), { logger with path := [], currentBytes := 0 })
  else
    match io.createDirectories (parentPath path) with
    | .error e => (.error e, logger)
    | .ok () =>
      if io.opens then
        let content := (logger.files path).getD []
        (.ok (), { logger with
          path
          isOpen := true
          files := Function.update logger.files path (some content)
          currentBytes := content.length.toUInt64 })
      else (.error (.ofMessage .eIo (ascii "open log file failed: " ++ path)), logger)

def Logger.log (logger : Logger) (io : FileResults) (call : LogCall) : Except Error Unit × Logger :=
  if call.level.toNat < logger.level.toNat then (.ok (), logger)
  else if ¬ logger.isOpen then
    (.ok (), { logger with stderr := logger.stderr ++ fputs call.line })
  else
    match logger.rotateIfNeeded io call.line.length.toUInt64 with
    | (.error e, logger) => (.error e, logger)
    | (.ok (), logger) =>
      (.ok (), { logger with
        files := Function.update logger.files logger.path
          (some ((logger.files logger.path).getD [] ++ fputs call.line))
        currentBytes := logger.currentBytes + call.line.length.toUInt64 })

end ForgeRelay
