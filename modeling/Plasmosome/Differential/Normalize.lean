import Plasmosome.Differential.Manifest
import Plasmosome.Foundation.IpAddress
import Plasmosome.Foundation.Numbering
import Plasmosome.Foundation.Utf8

/-!
# Normalization

Each value a rule covers is replaced by a placeholder that names its kind and,
but for durations, a number: by first appearance across the fields of the kind,
by first appearance within the field, or by rank within the field.
-/

namespace Plasmosome.Differential

open Foundation

/-- What the values of a kind are numbered across. -/
inductive Numbering where
  | across (kind : RuleKind)
  | rank
  | within
  | none
deriving DecidableEq, Repr

def numbering : RuleKind → Numbering
  | .pid => .across .pid
  | .bootId => .across .bootId
  | .mountId => .across .mountId
  | .peerGroup => .across .peerGroup
  | .device => .across .device
  | .inode => .across .inode
  | .ephemeralPort => .across .ephemeralPort
  | .resolvedAddress => .across .resolvedAddress
  | .parentMountId => .across .mountId
  | .systemTime => .rank
  | .memoryCounter => .within
  | .loadCounter => .within
  | .duration => .none

def isAsciiHexDigit (char : Char) : Bool :=
  char.isDigit || ('a' ≤ char && char ≤ 'f') || ('A' ≤ char && char ≤ 'F')

def isUuid (text : String) : Bool :=
  let groups := text.toList.splitOn '-'
  groups.map Utf8.size = [8, 4, 4, 4, 12] && groups.all fun group => group.all isAsciiHexDigit

section Values

variable {F : Type} [Floats F]

/-- Whether a value is one of the kind. -/
def holds (kind : RuleKind) (value : Value F) : Bool :=
  match kind with
  | .pid | .mountId | .parentMountId | .peerGroup | .device | .inode | .memoryCounter =>
      value.isU64
  | .ephemeralPort => value.asU64.any fun port => port.toNat < 2 ^ 16
  | .systemTime | .duration | .loadCounter => value.isNumber
  | .bootId => value.asStr.any isUuid
  | .resolvedAddress => value.asStr.any fun text => (IpAddr.parse text).isSome

def whole (value : Value F) : Option Int :=
  value.asI64.orElse fun _ => value.asU64.map fun number => number.toNat

def fraction (value : Value F) : F := value.asF64.getD (Floats.ofInt 0)

/-- How two times compare: exactly when both are integers, as floats otherwise. -/
def earlier (left right : Value F) : Ordering :=
  match whole left, whole right with
  | some left, some right => compare left right
  | _, _ => compare (fraction left) (fraction right)

def placeholder (kind : RuleKind) (seen : List (Value F)) (value : Value F) : Value F :=
  .string ("<" ++ kind.name ++ ":" ++ toString (1 + countBefore seen value) ++ ">")

/-- The fields so far, and the values seen of each kind that is numbered across fields. -/
structure Normalizing (F : Type) where
  fields : FieldMap F
  across : RuleKind → List (Value F)

/-- Whether the values of a field are all of the rule's kind, and times of one sort. -/
def Rule.fits (rule : Rule) (value : Value F) : Bool :=
  let mixed := numbering rule.kind = .rank && value.values.any Value.isF64 &&
    value.values.any fun value => !value.isF64
  value.values.all (holds rule.kind) && !mixed

/-- Replaces the values of the field a rule covers. -/
def normalizeRule (lane : Lane) (state : Normalizing F) (rule : Rule) :
    Except RunRefusal (Normalizing F) :=
  match state.fields[rule.field]? with
  | none => .ok state
  | some value =>
      if rule.fits value then
        match numbering rule.kind with
        | .across shared =>
            let seen := addUnseen (state.across shared) value.values
            .ok ⟨state.fields.insert rule.field (value.mapValues (placeholder shared seen)),
              Function.update state.across shared seen⟩
        | .within =>
            let seen := addUnseen [] value.values
            .ok ⟨state.fields.insert rule.field (value.mapValues (placeholder rule.kind seen)),
              state.across⟩
        | .rank =>
            let seen := (addUnseen [] value.values).mergeSort fun left right =>
              (earlier left right).isLE
            .ok ⟨state.fields.insert rule.field (value.mapValues (placeholder rule.kind seen)),
              state.across⟩
        | .none =>
            .ok ⟨state.fields.insert rule.field
              (value.mapValues fun _ => .string ("<" ++ rule.kind.name ++ ">")), state.across⟩
      else .error (.ruleCannotHold lane rule.probe rule.field rule.kind)

/-- The rules of a probe, in the order of their fields. -/
def Manifest.rulesOf (manifest : Manifest F) (probe : String) : List Rule :=
  sortByKey Rule.field (manifest.rules.filter fun rule => rule.probe = probe)

def normalize (manifest : Manifest F) (lane : Lane) (observation : Observation F) :
    Except RunRefusal (FieldMap F) :=
  ((manifest.rulesOf observation.probe).foldlM (normalizeRule lane)
    ⟨observation.fields, fun _ => []⟩).map Normalizing.fields

end Values

end Plasmosome.Differential
