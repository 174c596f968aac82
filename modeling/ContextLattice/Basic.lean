import Mathlib.Algebra.Order.Ring.Unbundled.Rat
import Mathlib.Data.String.Basic

/-!
# What the orchestrator's components share

Instants are stored and compared as text: a `Stamp` is the string a column holds. A `Clock` is one
reading of the system clock, with the instants some seconds away from it.
-/

namespace ContextLattice

abbrev Stamp := String

structure Clock where
  now : Stamp
  after : ℚ → Stamp
  ago : ℚ → Stamp

def Clock.frozen (now : Stamp) : Clock := ⟨now, fun _ => now, fun _ => now⟩

def Clock.noon : Clock := .frozen "2025-01-01T12:00:00Z"

structure HttpError where
  status : ℕ
  detail : String
deriving DecidableEq

def HttpError.internal : HttpError := ⟨500, "Internal Server Error"⟩

end ContextLattice
