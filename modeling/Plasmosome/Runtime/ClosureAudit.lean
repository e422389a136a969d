import Plasmosome.Runtime.MachO

/-!
# The library closure audit

Every name an image loads is resolved to a listed library or to a sealed system
library, and what dyld would search by, or load without this reader's knowledge,
refuses the image.
-/

namespace Plasmosome.Runtime

open Foundation

inductive ArtifactRole where
  | kernel
  | initramfs
  | rootImage
  | helper
  | library (index : Nat)
  | hostPolicy
  | guestPolicy
deriving DecidableEq, Repr

structure AuditedNames where
  resolved : List (ArtifactRole × String × ArtifactRole)
  systemNames : List String
deriving DecidableEq, Repr

section Audit

variable (pathMax : Nat) (sealed : List String → String → Except ClosureFault Bool)

end Audit

end Plasmosome.Runtime
