import Plasmosome.Backend.Codec
import Plasmosome.Foundation.Utf8
import Plasmosome.Guest.ObservationLaws

/-!
# The value form of an observation

How an observation is written and read back. Every record is read from an object
of exactly its fields, and an observation that breaks a rule is not read.
-/

namespace Plasmosome.Guest

open Foundation Backend
open Serde (Value Codec Fields)

/-! ## Thirty-two bytes as hexadecimal digits -/

/-- Why a text is not sixty-four lowercase hexadecimal digits. -/
inductive DigestError where
  | wrongLength (bytes : Nat)
  | notLowercaseHex (position : Nat)
deriving DecidableEq, Repr

def nibble? (digit : UInt8) : Option UInt8 :=
  if 0x30 ≤ digit ∧ digit ≤ 0x39 then some (digit - 0x30)
  else if 0x61 ≤ digit ∧ digit ≤ 0x66 then some (digit - 0x61 + 10)
  else none

/-- The value of the digit at a place, once every byte is known to be a digit. -/
def nibbleAt (digits : List UInt8) (position : Nat) : UInt8 :=
  (digits[position]?.bind nibble?).getD 0

/-- The bytes a text of sixty-four digits spells, or its first fault. -/
def parseHex (text : String) : Except DigestError (Vector UInt8 32) :=
  let digits := Utf8.encode text.toList
  if digits.length ≠ 64 then .error (.wrongLength digits.length)
  else
    match digits.findIdx? fun digit => (nibble? digit).isNone with
    | some position => .error (.notLowercaseHex position)
    | none => .ok (Vector.ofFn fun index =>
        (nibbleAt digits (2 * index) <<< 4) ||| nibbleAt digits (2 * index + 1))

def hexChar (nibble : UInt8) : Char := Serde.hexDigit nibble.toNat

/-- The sixty-four digits of the bytes. -/
def hex (bytes : Vector UInt8 32) : String :=
  String.ofList (bytes.toList.flatMap fun byte : UInt8 =>
    [hexChar (byte >>> 4), hexChar (byte &&& 0x0f)])

/-- The byte a digit is written as. -/
def hexByte (nibble : UInt8) : UInt8 := UInt8.ofNat (hexChar nibble).toNat

theorem nibble?_hexByte {nibble : UInt8} (hnibble : nibble.toNat < 16) :
    nibble? (hexByte nibble) = some nibble := by
  have hall : ∀ digit : Fin 16, nibble? (hexByte (UInt8.ofNat digit)) =
      some (UInt8.ofNat digit) := by decide
  simpa using hall ⟨nibble.toNat, hnibble⟩

theorem encode_hexChar {nibble : UInt8} (hnibble : nibble.toNat < 16) :
    String.utf8EncodeChar (hexChar nibble) = [hexByte nibble] := by
  have hall : ∀ digit : Fin 16, String.utf8EncodeChar (hexChar (UInt8.ofNat digit)) =
      [hexByte (UInt8.ofNat digit)] := by decide
  simpa using hall ⟨nibble.toNat, hnibble⟩

theorem high_lt (byte : UInt8) : (byte >>> 4).toNat < 16 := by
  have hbyte := byte.toNat_lt
  rw [UInt8.toNat_shiftRight]
  simp only [Nat.shiftRight_eq_div_pow]
  change byte.toNat / 16 < 16
  omega

theorem low_lt (byte : UInt8) : (byte &&& 0x0f).toNat < 16 := by
  rw [UInt8.toNat_and]
  exact Nat.lt_succ_of_le Nat.and_le_right

theorem nibbles_join (byte : UInt8) : ((byte >>> 4) <<< 4) ||| (byte &&& 0x0f) = byte := by
  have hall : ∀ number : Fin 256, ((UInt8.ofNat number >>> 4) <<< 4) |||
      (UInt8.ofNat number &&& 0x0f) = UInt8.ofNat number := by decide +kernel
  simpa using hall ⟨byte.toNat, byte.toNat_lt⟩

theorem encode_hex (bytes : Vector UInt8 32) : Utf8.encode (hex bytes).toList =
    bytes.toList.flatMap fun byte : UInt8 => [hexByte (byte >>> 4), hexByte (byte &&& 0x0f)] := by
  rw [hex, String.toList_ofList, Utf8.encode, List.flatMap_assoc]
  refine congrArg (fun digits => bytes.toList.flatMap digits) (funext fun byte => ?_)
  simp [encode_hexChar (high_lt byte), encode_hexChar (low_lt byte)]

theorem getElem?_pairs {α β : Type} (f g : α → β) (list : List α) (index : Nat) :
    (list.flatMap fun a => [f a, g a])[2 * index]? = list[index]?.map f ∧
      (list.flatMap fun a => [f a, g a])[2 * index + 1]? = list[index]?.map g := by
  induction list generalizing index with
  | nil => simp
  | cons head tail ih =>
      cases index with
      | zero => simp
      | succ index => simpa [Nat.mul_add] using ih index

/-- The digits of the bytes are read back. -/
theorem parseHex_hex (bytes : Vector UInt8 32) : parseHex (hex bytes) = .ok bytes := by
  have hlength : (Utf8.encode (hex bytes).toList).length = 64 := by
    rw [encode_hex, List.length_flatMap]
    simp
  have hdigits : ((Utf8.encode (hex bytes).toList).findIdx? fun digit =>
      (nibble? digit).isNone) = none := by
    rw [List.findIdx?_eq_none_iff, encode_hex]
    intro digit hdigit
    obtain ⟨byte, -, hmem⟩ := List.mem_flatMap.mp hdigit
    rcases List.mem_pair.mp hmem with rfl | rfl
    · rw [nibble?_hexByte (high_lt byte)]
      rfl
    · rw [nibble?_hexByte (low_lt byte)]
      rfl
  rw [parseHex, if_neg (not_not.mpr hlength), hdigits]
  refine congrArg Except.ok (Vector.ext fun index hindex => ?_)
  have hbyte : bytes.toList[index]? = some bytes[index] := by
    simp [hindex]
  obtain ⟨hhigh, hlow⟩ := getElem?_pairs (fun byte : UInt8 => hexByte (byte >>> 4))
    (fun byte : UInt8 => hexByte (byte &&& 0x0f)) bytes.toList index
  rw [Vector.getElem_ofFn, encode_hex, nibbleAt, nibbleAt, hhigh, hlow, hbyte]
  simp [nibble?_hexByte (high_lt _), nibble?_hexByte (low_lt _), nibbles_join]

def hexCodec : Codec (Vector UInt8 32) where
  encode := fun bytes => some (.string (hex bytes))
  decode := fun value => value.asStr.bind fun text => (parseHex text).toOption
  Valid := fun _ => True
  reads := fun bytes _ => ⟨.string (hex bytes), rfl, by simp [parseHex_hex, Except.toOption]⟩

/-! ## The records -/

def BootToken.codec : Codec BootToken := .through hexCodec BootToken.bytes BootToken.mk fun _ => rfl

def digestCodec : Codec Digest := .through hexCodec Digest.bytes Digest.mk fun _ => rfl

def GuestAdmission.codec : Codec GuestAdmission :=
  named
    (fun
      | .staged => "staged"
      | .active => "active"
      | .draining => "draining"
      | .closed => "closed"
      | .revoked => "revoked")
    (fun
      | "staged" => some .staged
      | "active" => some .active
      | "draining" => some .draining
      | "closed" => some .closed
      | "revoked" => some .revoked
      | _ => none)
    (by rintro ⟨⟩ <;> rfl)

def GuestBinding.codec : Codec GuestBinding :=
  .through
    (.object (.field "grant" GrantId.codec (.field "admission" GuestAdmission.codec .nil))
      (by decide))
    (fun binding => (binding.grant, binding.admission, ()))
    (fun (grant, admission, _) => ⟨grant, admission⟩) fun _ => rfl

def GuestProjection.codec : Codec GuestProjection :=
  .through
    (.object (.field "id" .string (.field "bindings" (.list GuestBinding.codec) .nil)) (by decide))
    (fun object => (object.id, object.bindings, ())) (fun (id, bindings, _) => ⟨id, bindings⟩)
    fun _ => rfl

def StreamSide.codec : Codec StreamSide :=
  named
    (fun
      | .accepted => "accepted"
      | .relay => "relay")
    (fun
      | "accepted" => some .accepted
      | "relay" => some .relay
      | _ => none)
    (by rintro ⟨⟩ <;> rfl)

def SocketStreamEnd.codec : Codec SocketStreamEnd :=
  .through (.object (.field "side" StreamSide.codec (.field "id" .string .nil)) (by decide))
    (fun «end» => («end».side, «end».id, ())) (fun (side, id, _) => ⟨side, id⟩) fun _ => rfl

def SocketStreamProjection.codec : Codec SocketStreamProjection :=
  .through
    (.object (.field "id" .string (.field "grant" GrantId.codec
      (.field "ends" (.list SocketStreamEnd.codec) .nil))) (by decide))
    (fun stream => (stream.id, stream.grant, stream.ends, ()))
    (fun (id, grant, ends, _) => ⟨id, grant, ends⟩) fun _ => rfl

/-- Every value refuses. -/
def SoftwareTree.codec : Codec SoftwareTree where
  encode := nofun
  decode := fun _ => none
  Valid := fun _ => True
  reads := nofun

def TreeReference.codec : Codec TreeReference :=
  .through
    (.object (.field "path" .string (.field "pid" .u64 (.field "comm" .string
      (.field "exec_id" (.nullable .string rfl) .nil)))) (by decide))
    (fun reference => (reference.path, reference.pid, reference.comm, reference.execId, ()))
    (fun (path, pid, comm, execId, _) => ⟨path, pid, comm, execId⟩) fun _ => rfl

def SoftwareObservation.codec : Codec SoftwareObservation :=
  .through
    (.object (.field "trees" (.list SoftwareTree.codec)
      (.field "held" (.list TreeReference.codec) .nil)) (by decide))
    (fun software => (software.trees, software.held, ())) (fun (trees, held, _) => ⟨trees, held⟩)
    fun _ => rfl

def GuestNetworkObservation.codec : Codec GuestNetworkObservation :=
  .through
    (.object (.field "dns_listeners" (.list GuestProjection.codec)
      (.field "tuns" (.list GuestProjection.codec) (.field "routes" (.list GuestProjection.codec)
        (.field "proxy_rules" (.list GuestProjection.codec)
          (.field "tcp_flows" (.list GuestProjection.codec)
            (.field "udp_flows" (.list GuestProjection.codec) .nil)))))) (by decide))
    (fun network => (network.dnsListeners, network.tuns, network.routes, network.proxyRules,
      network.tcpFlows, network.udpFlows, ()))
    (fun (dnsListeners, tuns, routes, proxyRules, tcpFlows, udpFlows, _) =>
      ⟨dnsListeners, tuns, routes, proxyRules, tcpFlows, udpFlows⟩) fun _ => rfl

namespace GuestObservation

/-- The record as its fields stand, with no rule checked. -/
def fieldsCodec : Codec GuestObservation :=
  .through
    (.object (.field "boot" BootToken.codec (.field "policy" digestCodec
      (.field "fs_mounts" (.list GuestProjection.codec)
        (.field "fs_handles" (.list GuestProjection.codec)
          (.field "socket_listeners" (.list GuestProjection.codec)
            (.field "socket_streams" (.list SocketStreamProjection.codec)
              (.field "network" GuestNetworkObservation.codec
                (.field "software" SoftwareObservation.codec .nil)))))))) (by decide))
    (fun observation => (observation.boot, observation.policy, observation.fsMounts,
      observation.fsHandles, observation.socketListeners, observation.socketStreams,
      observation.network, observation.software, ()))
    (fun (boot, policy, fsMounts, fsHandles, socketListeners, socketStreams, network, software,
        _) =>
      ⟨boot, policy, fsMounts, fsHandles, socketListeners, socketStreams, network, software⟩)
    fun _ => rfl

/-- Any observation is written; only one that validates is read. -/
def codec : Codec GuestObservation := fieldsCodec.screened (passes validate)

theorem passes_validate {observation : GuestObservation} :
    passes validate observation = true ↔ observation.validate = .ok () := by
  unfold passes
  cases observation.validate with
  | error _ => simp [Except.isOk, Except.toBool]
  | ok _ => simp [Except.isOk, Except.toBool]

theorem fieldsCodec_valid (observation : GuestObservation) : fieldsCodec.Valid observation := by
  have hbinding : ∀ binding : GuestBinding, GuestBinding.codec.Valid binding :=
    fun _ => ⟨trivial, trivial, trivial⟩
  have hobjects :
      ∀ objects : List GuestProjection, (Codec.list GuestProjection.codec).Valid objects :=
    fun _ _ _ => ⟨trivial, fun binding _ => hbinding binding, trivial⟩
  have hstreams : (Codec.list SocketStreamProjection.codec).Valid observation.socketStreams :=
    fun _ _ => ⟨trivial, trivial, fun _ _ => ⟨trivial, trivial, trivial⟩, trivial⟩
  have hnetwork : GuestNetworkObservation.codec.Valid observation.network :=
    ⟨hobjects _, hobjects _, hobjects _, hobjects _, hobjects _, hobjects _, trivial⟩
  have hsoftware : SoftwareObservation.codec.Valid observation.software :=
    ⟨fun _ _ => trivial,
      fun _ _ => ⟨trivial, trivial, trivial, fun _ _ => trivial, trivial⟩, trivial⟩
  exact ⟨trivial, trivial, hobjects _, hobjects _, hobjects _, hstreams, hnetwork, hsoftware,
    trivial⟩

/-- An observation is accepted by what it holds: exactly when every inventory names and binds its
objects properly and every stream its ends, in whatever order they stand. An accepted one lists
every binding once and is read back from what it is written as, and nothing else is ever read. -/
theorem observation_is_judged_by_what_it_holds (observation : GuestObservation) :
    (observation.validate = .ok () ↔ observation.Accepted) ∧
    (∀ other, observation.Reordered other →
      (observation.validate = .ok () ↔ other.validate = .ok ())) ∧
    (observation.validate = .ok () → observation.grants.Nodup ∧
      ∀ kind id grant, (kind, id, grant) ∈ observation.grants ↔ observation.Binds kind id grant) ∧
    (observation.validate = .ok () → ∃ value, codec.encode observation = some value ∧
      codec.decode value = some observation) ∧
    ∀ value, codec.decode value = some observation → observation.validate = .ok () := by
  refine ⟨validate_eq_ok_iff, ?_, ?_, ?_, ?_⟩
  · intro other hreordered
    rw [validate_eq_ok_iff, validate_eq_ok_iff, hreordered.accepted_iff]
  · intro hok
    exact ⟨(validate_eq_ok_iff.mp hok).nodup_grants, fun _ _ _ => mem_grants⟩
  · intro hok
    exact codec.reads observation ⟨passes_validate.mpr hok, fieldsCodec_valid observation⟩
  · intro value hdecode
    exact passes_validate.mp (Codec.check_of_screened hdecode)

end GuestObservation

end Plasmosome.Guest
