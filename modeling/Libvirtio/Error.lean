import Mathlib.Tactic.Ring

namespace Libvirtio

inductive DeviceDownReason where
  | stop | reset | revoked | surpriseRemoval
  deriving DecidableEq, Repr

/-- What the devices read of a host I/O error. Operating system error numbers are positive `i32`. -/
structure IoError where
  rawOsError : Option Nat
  inRange : ∀ code, rawOsError = some code → 0 < code ∧ code < 2 ^ 31
  deriving DecidableEq

inductive DeviceError where
  | down (reason : DeviceDownReason)
  | invalidLayout (reason : String)
  | invalidQueue (queue : UInt16) (reason : String)
  | dmaRange (gpa length : Nat)
  | dmaAlignment (alignment : Nat)
  | descriptor (reason : String)
  | io (error : IoError)
  | worker (message : String)
  deriving DecidableEq

/-- How a function leaves without a value: through its `Result`, or by unwinding. -/
inductive Fault where
  | error (error : DeviceError)
  | panic (message : String)
  deriving DecidableEq

end Libvirtio
