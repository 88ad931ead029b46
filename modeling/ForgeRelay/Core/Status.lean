import Mathlib.Data.List.TakeWhile
import Mathlib.Logic.Function.Iterate

/-!
# Byte strings, stable status codes and errors

The core library reports failures by a stable `fr_status`; the C++ layers throw `fr::Error`,
which carries the status and a text. A `std::string` is a sequence of arbitrary bytes.
-/

namespace ForgeRelay

/-- A byte sequence: a buffer's content, a file's content or a `std::string`. -/
abbrev Bytes := List UInt8

/-- The bytes of a text literal of the source (all of them are ASCII). -/
def ascii (text : String) : Bytes := text.toList.map fun c => c.toNat.toUInt8

/-- The characters of a C string: what stands before the first zero. -/
def cString (s : Bytes) : Bytes := s.takeWhile (· ≠ 0)

theorem zero_notMem_cString (s : Bytes) : 0 ∉ cString s := by
  intro hzero
  rw [cString] at hzero
  have hkept := List.mem_takeWhile_imp hzero
  exact absurd hkept (by decide)

theorem cString_eq_self {s : Bytes} (h : 0 ∉ s) : cString s = s := by
  rw [cString, List.takeWhile_eq_self_iff]
  intro c hc
  refine decide_eq_true ?_
  rintro rfl
  exact h hc

/-- The text at the start of a buffer ends at its zero, whatever follows. -/
theorem cString_append_zero {text : Bytes} (rest : Bytes) (h : 0 ∉ text) :
    cString (text ++ 0 :: rest) = text := by
  have hkept : ∀ c ∈ text, decide (c ≠ 0) = true := by
    intro c hc
    refine decide_eq_true ?_
    rintro rfl
    exact h hc
  rw [cString, List.takeWhile_append_of_pos hkept, List.takeWhile_cons_of_neg (by decide),
    List.append_nil]

inductive FrStatus
  | ok | eArg | eRange | eOverflow | eNomem | eIo | eEof | eProtocol | eTruncated | eState
  | eNotfound | eExists | eLimit | eBusy | eInternal | eConflict | eExpired
  | eUnauthenticated | eForbidden
  deriving DecidableEq, Repr

/-- The stable numeric value of a status. -/
def FrStatus.code : FrStatus → Int32
  | .ok => 0
  | .eArg => -1
  | .eRange => -2
  | .eOverflow => -3
  | .eNomem => -4
  | .eIo => -5
  | .eEof => -6
  | .eProtocol => -7
  | .eTruncated => -8
  | .eState => -9
  | .eNotfound => -10
  | .eExists => -11
  | .eLimit => -12
  | .eBusy => -13
  | .eInternal => -14
  | .eConflict => -15
  | .eExpired => -16
  | .eUnauthenticated => -17
  | .eForbidden => -18

/-- `fr::Error` or another exception of the C++ runtime (`std::length_error` and the like),
which no handler for `fr::Error` catches, with what `what()` returns. -/
inductive Error
  | fr (code : FrStatus) (what : Bytes)
  | std (what : Bytes)
  deriving DecidableEq, Repr

/-- The exception that `throw_error(code, message)` throws, for a text without dynamic parts. -/
def Error.of (code : FrStatus) (message : String) : Error := .fr code (ascii message)

/-- The same for a text with dynamic parts, of which `what()` returns a C string. -/
def Error.ofMessage (code : FrStatus) (message : Bytes) : Error := .fr code (cString message)

end ForgeRelay
