import Mathlib.Data.BitVec

/-!
# Addresses and the call context
-/

namespace Catalist

/-- An account of the chain. -/
abbrev Address := BitVec 160

/--
What a call can read about itself and its block.

A block's timestamp exceeds its parent's, so it is never zero while a transaction runs.
-/
structure Env where
  /-- `msg.sender` -/
  sender : Address
  /-- `msg.value` -/
  value : Nat
  /-- `block.timestamp` -/
  timestamp : Nat
  timestamp_pos : 0 < timestamp

end Catalist
