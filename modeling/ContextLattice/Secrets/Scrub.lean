import ContextLattice.Foundation.Veil
import ContextLattice.Secrets.Redactor

/-!
# The scrubber

`_scrub_sensitive_payload` redacts every string of a value, and hides what stands under a key that
names a secret. The keys are kept.
-/

namespace ContextLattice

open Foundation Foundation.Piece

def secretKeyPattern : Pattern :=
  ⟨false, .anyOf (keyName "api") [anyCase "token", anyCase "secret", anyCase "password",
    keyName "private", keyName "access"], false⟩

variable (w : WordClass)

def namesSecret (key : String) : Bool := secretKeyPattern.search w.isWord none key.toList

def redactedValue : Json := .str (String.ofList redactionMarker)

mutual

def scrubSensitivePayload : Json → Json
  | .str s => .str (redactSensitiveValues w s)
  | .arr items => .arr (scrubItems items)
  | .obj members => .obj (scrubMembers members)
  | .null => .null
  | .bool b => .bool b
  | .int n => .int n
  | .float r => .float r

def scrubItems : List Json → List Json
  | [] => []
  | j :: js => scrubSensitivePayload j :: scrubItems js

def scrubMembers : List (String × Json) → List (String × Json)
  | [] => []
  | (key, nested) :: ms =>
    (key, if namesSecret w key then redactedValue else scrubSensitivePayload nested) ::
      scrubMembers ms

end

def Clean (s : String) : Prop := containsSensitiveValue w s = false

instance (s : String) : Decidable (Clean w s) := by
  unfold Clean
  infer_instance

variable {w}

variable {s : String}

/-! ### Texts under the veil -/

variable (w : WordClass)

@[irreducible] def veilText (s : String) : List Cell := veil (secretsOf w s)

variable {w}

theorem proper_secretsOf (s : String) : Proper (secretsOf w s) := (proper_map_kept _).cut _

theorem uncover_veilText (s : String) :
    uncover redactionMarker (veilText w s) = (redactSensitiveValues w s).toList := by
  rw [veilText, uncover_veil (proper_secretsOf s), render_secretsOf]

theorem length_veilText (s : String) : (veilText w s).length = s.toList.length := by
  rw [veilText, length_veil, source_secretsOf]

theorem veilText_of_clean (h : Clean w s) : veilText w s = s.toList.map Cell.clear := by
  rw [veilText, secretsOf, cut_of_not_occurs ((containsSensitiveValue_eq_false w).mp h),
    veil_map_kept]

end ContextLattice
