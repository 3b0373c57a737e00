import Interlace.Failure

/-!
# Cancellation

A run can be cancelled by hand or by running out of time. The time is a number that the
caller supplies, so that a check is a function of its arguments.
-/

namespace Interlace

/-- Whether a run has been cancelled, and when its time is up. -/
structure Cancellation where
  cancelled : Bool
  deadline : Option Nat
  deriving DecidableEq, Repr

namespace Cancellation

/-- Neither cancelled nor bounded in time. -/
def never : Cancellation := ⟨false, none⟩

/-- Out of time `timeout` after `now`. -/
def withTimeout (now timeout : Nat) : Cancellation :=
  ⟨false, some (now + timeout)⟩

/-- Cancelled by hand. -/
def cancel (c : Cancellation) : Cancellation :=
  { c with cancelled := true }

/-- Cancelled by hand, or out of time at `now`. -/
def isCancelled (c : Cancellation) (now : Nat) : Bool :=
  c.cancelled || c.deadline.any (· ≤ now)

/-- Fails when cancelled. -/
def check (c : Cancellation) (now : Nat) : Except Failure Unit :=
  if c.isCancelled now then .error .cancelled else .ok ()

end Cancellation

end Interlace
