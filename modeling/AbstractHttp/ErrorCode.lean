import Mathlib.Tactic

/-! # Error codes of the library -/
namespace AbstractHttp

/-- What a call returns when it does not return success: the error enumeration, the framing
error of the WebSocket parser, the bare code 90 and the system's own `EEXIST`. -/
inductive ErrorCode where
  | inval
  | nomem
  | io
  | notsup
  | timeout
  | syscall
  | wsFraming
  | msgSize
  | exist
  deriving DecidableEq, Repr

/-- The integer that callers and error callbacks see. -/
def ErrorCode.value : ErrorCode → ℤ
  | .inval => -1
  | .nomem => -2
  | .io => -3
  | .notsup => -4
  | .timeout => -5
  | .syscall => -6
  | .wsFraming => -1001
  | .msgSize => 90
  | .exist => 17

theorem ErrorCode.value_ne_zero (e : ErrorCode) : e.value ≠ 0 := by cases e <;> decide

/-- The system's own `ENOMEM`, which error callbacks are given in place of `nomem`. -/
def enomem : ℤ := 12

end AbstractHttp
