import Plasmosome.Serde.Strict

/-!
# The hello replies

Each lane opens with a hello. Its reply is one strict JSON object with the lane's
request id, a boot token and the policy the guest verified. The withdrawal lane's
boot token is the normal lane's.
-/

namespace Plasmosome.Membrane

open Foundation
open Serde

/-! ## Digests -/

inductive DigestError where
  | wrongLength (bytes : Nat)
  | notLowercaseHex (offset : Nat)
deriving DecidableEq

/-- 32 bytes. -/
structure Digest where
  bytes : List UInt8
  length_eq : bytes.length = 32
deriving DecidableEq

namespace Digest

def nibble (digit : UInt8) : Option UInt8 :=
  if 0x30 ≤ digit ∧ digit ≤ 0x39 then some (digit - 0x30)
  else if 0x61 ≤ digit ∧ digit ≤ 0x66 then some (digit - 0x61 + 10)
  else none

/-- The values of hexadecimal digits, from the one at `offset` on. -/
def nibbles (offset : Nat) : List UInt8 → Except DigestError (List UInt8)
  | [] => .ok []
  | digit :: rest =>
      match nibble digit, nibbles (offset + 1) rest with
      | none, _ => .error (.notLowercaseHex offset)
      | some _, .error fault => .error fault
      | some value, .ok values => .ok (value :: values)

/-- Each byte from its high and its low half. -/
def pairs : List UInt8 → List UInt8
  | high :: low :: rest => (high <<< 4 ||| low) :: pairs rest
  | _ => []

theorem length_nibbles {digits values : List UInt8} {offset : Nat}
    (hnibbles : nibbles offset digits = .ok values) : values.length = digits.length := by
  induction digits generalizing offset values with
  | nil =>
      cases hnibbles
      rfl
  | cons digit rest ih =>
      rw [nibbles] at hnibbles
      split at hnibbles
      next => cases hnibbles
      next => cases hnibbles
      next hvalues =>
        cases hnibbles
        rw [List.length_cons, List.length_cons, ih hvalues]

theorem length_pairs (count : Nat) {values : List UInt8} (hlength : values.length = 2 * count) :
    (pairs values).length = count := by
  induction count generalizing values with
  | zero =>
      rw [List.length_eq_zero_iff.mp hlength]
      rfl
  | succ count ih =>
      match values with
      | [] => simp at hlength
      | [_] => simp at hlength; omega
      | _ :: _ :: rest =>
          simp only [List.length_cons] at hlength
          rw [pairs, List.length_cons, ih (by omega)]

def parseHex (text : String) : Except DigestError Digest :=
  if hlength : (Utf8.encode text.toList).length = 64 then
    match hnibbles : nibbles 0 (Utf8.encode text.toList) with
    | .error fault => .error fault
    | .ok values => .ok ⟨pairs values, length_pairs 32 ((length_nibbles hnibbles).trans hlength)⟩
  else .error (.wrongLength (Utf8.encode text.toList).length)

end Digest

/-- The guest's token of one boot. -/
structure BootToken where
  digest : Digest
deriving DecidableEq

structure BootTokenError where
  fault : DigestError
deriving DecidableEq

def BootToken.parseHex (text : String) : Except BootTokenError BootToken :=
  match Digest.parseHex text with
  | .ok digest => .ok ⟨digest⟩
  | .error fault => .error ⟨fault⟩

/-! ## Requests -/

inductive ControlLane where
  | normal
  | withdrawal
deriving DecidableEq

def helloRequest : ControlLane → List UInt8
  | .normal => Utf8.encode
      "\x7b\"id\":1,\"method\":\"hello\",\"params\":\x7b\"lane\":\"normal\"\x7d\x7d\n".toList
  | .withdrawal => Utf8.encode
      "\x7b\"id\":2,\"method\":\"hello\",\"params\":\x7b\"lane\":\"withdrawal\"\x7d\x7d\n".toList

def requestId : ControlLane → UInt64
  | .normal => 1
  | .withdrawal => 2

/-! ## Replies -/

inductive HelloRefusal where
  | notUtf8
  | notJson (detail : String)
  | duplicateKey (path : String)
  | notAnObject (field : String)
  | unknownField (field : String)
  | missingField (field : String)
  | wrongType (field : String)
  | wrongId (expected : UInt64) (found : String)
  | guestError (code : Option Int64) (message : String) (detail : Option String)
  | badBoot (fault : BootTokenError)
  | badPolicy (fault : DigestError)
  | policyMismatch (expected found : Digest)
  | bootChanged (expected found : BootToken)
deriving DecidableEq

def guestTextLimit : Nat := 1024

/-- The characters that fit in `limit` bytes. -/
def cutChars : Nat → List Char → List Char
  | _, [] => []
  | limit, char :: rest =>
      if char.utf8Size ≤ limit then char :: cutChars (limit - char.utf8Size) rest else []

def cut (text : String) : String := String.ofList (cutChars guestTextLimit text.toList)

def cutPointer (pointer : String) : String :=
  let kept := (cut pointer).toList
  if kept.getLast? = some '~' then String.ofList kept.dropLast else String.ofList kept

def fieldPointer (place key : String) : String :=
  String.ofList (place.toList ++ '/' :: Pointer.escape key.toList)

def asI64 : Value → Option Int64
  | .number (.posInt value) => if value.toNat < 2 ^ 63 then some (Int64.ofNat value.toNat) else none
  | .number (.negInt value) => some value
  | _ => none

/-- `value.get(key)`: nothing where the value is no object. -/
def memberOf (value : Value) (key : String) : Option Value :=
  match value with
  | .object entries => entries.lookup key
  | _ => none

def object (value : Value) (place : String) : Except HelloRefusal (List (String × Value)) :=
  match value with
  | .object entries => .ok entries
  | _ => .error (.notAnObject place)

/-- The record has these fields and no others. -/
def closed (record : List (String × Value)) (place : String) (fields : List String) :
    Except HelloRefusal Unit :=
  match (record.map Prod.fst).find? fun key => !fields.contains key with
  | some unknown => .error (.unknownField (cutPointer (fieldPointer place unknown)))
  | none =>
      match fields.find? fun field => (record.lookup field).isNone with
      | some missing => .error (.missingField (fieldPointer place missing))
      | none => .ok ()

def text (record : List (String × Value)) (place key : String) : Except HelloRefusal String :=
  match (record.lookup key).bind Value.asStr with
  | some text => .ok text
  | none => .error (.wrongType (fieldPointer place key))

def strictRefusal : StrictJsonError → HelloRefusal
  | .duplicateKey path _ => .duplicateKey (cutPointer path)
  | .notJson fault =>
      .notJson ("refused as JSON at line " ++ toString fault.line ++ ", column " ++
        toString fault.column ++ ": " ++ fault.reason)

section Judging

variable (library : Library)

def guestError (error : Value) : HelloRefusal :=
  .guestError ((memberOf error "code").bind asI64)
    (((memberOf error "message").bind Value.asStr).elim "" cut)
    ((memberOf error "detail").map fun detail => cut (detail.text library.floatChars))

/-- The boot token and the policy of a reply's result. -/
def judgeResult (result : Value) (expectedPolicy : Digest) : Except HelloRefusal BootToken := do
  let result ← object result "/result"
  closed result "/result" ["boot", "policy"]
  let boot ← (BootToken.parseHex (← text result "/result" "boot")).mapError HelloRefusal.badBoot
  let found ← (Digest.parseHex (← text result "/result" "policy")).mapError HelloRefusal.badPolicy
  if found = expectedPolicy then return boot
  else .error (.policyMismatch expectedPolicy found)

/-- A key that is not there reads as `null`. -/
def entry (record : List (String × Value)) (key : String) : Value :=
  (record.lookup key).getD .null

def judge (lane : ControlLane) (frame : List UInt8) (expectedPolicy : Digest) :
    Except HelloRefusal BootToken :=
  match Utf8.decode frame 0 with
  | .error _ => .error .notUtf8
  | .ok _ => do
      let reply ← (parseValue library frame).mapError strictRefusal
      let reply ← object reply ""
      match reply.lookup "error" with
      | some error => .error (guestError library error)
      | none =>
          closed reply "" ["id", "result"]
          if (entry reply "id").asU64 = some (requestId lane) then
            judgeResult (entry reply "result") expectedPolicy
          else .error (.wrongId (requestId lane) (cut ((entry reply "id").text library.floatChars)))

def judgeNormal (frame : List UInt8) (expectedPolicy : Digest) : Except HelloRefusal BootToken :=
  judge library .normal frame expectedPolicy

def judgeWithdrawal (frame : List UInt8) (expectedPolicy : Digest) (normal : BootToken) :
    Except HelloRefusal Unit := do
  let found ← judge library .withdrawal frame expectedPolicy
  if found = normal then return () else .error (.bootChanged normal found)

end Judging

end Plasmosome.Membrane
