import Mathlib

/-!
# Digests

A digest is thirty-two bytes. The hash itself is SHA-256, which the modules
that hash take as a function of the bytes.
-/

namespace Plasmosome.Backend

structure Digest where
  bytes : Vector UInt8 32
deriving DecidableEq, Repr

end Plasmosome.Backend
