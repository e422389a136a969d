import Plasmosome.Membrane.Initramfs

/-!
# The newc format

An archive of members, each a header, a name and a body, padded to four bytes. The
last one is the trailer, and only zero bytes follow it.
-/

namespace Plasmosome.Membrane.Initramfs

open Foundation

/-- The thirteen numbers of a header. -/
structure Header where
  ino : UInt32
  mode : UInt32
  uid : UInt32
  gid : UInt32
  nlink : UInt32
  mtime : UInt32
  filesize : UInt32
  devmajor : UInt32
  devminor : UInt32
  rdevmajor : UInt32
  rdevminor : UInt32
  namesize : UInt32
  check : UInt32
deriving DecidableEq

def Header.fields (header : Header) : List UInt32 :=
  [header.ino, header.mode, header.uid, header.gid, header.nlink, header.mtime, header.filesize,
    header.devmajor, header.devminor, header.rdevmajor, header.rdevminor, header.namesize,
    header.check]

/-- The number that hexadecimal digits write. -/
def hexNumber (text : List UInt8) : Option Nat :=
  text.foldlM (fun value byte => (toDigit16 byte).map fun digit => value * 16 + digit.toNat) 0

/-- Eight digits that write a number, of either case. -/
def HexText (value : UInt32) (text : List UInt8) : Prop :=
  text.length = 8 ∧ hexNumber text = some value.toNat

def Header.Written (header : Header) (bytes : List UInt8) : Prop :=
  ∃ texts, List.Forall₂ HexText header.fields texts ∧ bytes = MAGIC ++ texts.flatten

/-- A file or a directory of an archive, or its trailer. -/
structure Member where
  header : Header
  name : List Char
  data : List UInt8
deriving DecidableEq

/-- The zero bytes that fill a length up to a multiple of four. -/
def padding (length : Nat) : List UInt8 := List.replicate ((4 - length % 4) % 4) 0

namespace Member

/-- The bytes of a name, ended by the only NUL among them. -/
def nameBytes (member : Member) : List UInt8 := Utf8.encode member.name ++ [0]

/-- The sizes in the header are those of the name and the body. -/
def Sized (member : Member) : Prop :=
  member.header.check = 0 ∧ member.header.namesize.toNat = member.nameBytes.length ∧
    member.header.filesize.toNat = member.data.length ∧ 2 ≤ member.nameBytes.length ∧
    member.nameBytes.length ≤ 4096 ∧ 0 ∉ Utf8.encode member.name

def Written (member : Member) (bytes : List UInt8) : Prop :=
  member.Sized ∧ ∃ header, member.header.Written header ∧
    bytes = header ++ (member.nameBytes ++ (padding (110 + member.nameBytes.length) ++
      (member.data ++ padding member.data.length)))

def Regular (member : Member) : Prop := member.header.mode &&& TYPE_BITS = REGULAR

def Directory (member : Member) : Prop := member.header.mode &&& TYPE_BITS = DIRECTORY

/-- A name of nonempty parts, none of which is a dot or two. -/
def Plain (member : Member) : Prop :=
  ∀ part ∈ member.name.splitOn '/', part ≠ [] ∧ part ≠ ['.'] ∧ part ≠ ['.', '.']

/-- A member that may follow the earlier ones: a file of one link or a directory without a
body, whose parent comes before it and whose name is new and not the trailer's. -/
structure Follows (member : Member) (earlier : List Member) : Prop where
  plain : member.Plain
  kind : member.Regular ∧ member.header.nlink = 1 ∨ member.Directory ∧ member.data = []
  parent : ∀ parent base, member.name = parent ++ '/' :: base → '/' ∉ base →
    ∃ directory ∈ earlier, directory.name = parent ∧ directory.Directory
  fresh : ∀ other ∈ earlier, other.name ≠ member.name
  not_trailer : member.name ≠ TRAILER

end Member

/-- Every member may follow those listed before it. -/
def WellListed (members : List Member) : Prop :=
  ∀ earlier member later, members = earlier ++ member :: later → member.Follows earlier

/-- A body-less member under the trailer's name that is no symbolic link. -/
def Trailer (member : Member) : Prop :=
  member.name = TRAILER ∧ member.data = [] ∧ member.header.mode &&& TYPE_BITS ≠ SYMLINK

/-- The bytes write the members, then a trailer, then nothing but zeros. -/
def Writes (members : List Member) (bytes : List UInt8) : Prop :=
  ∃ texts trailer ending count, List.Forall₂ Member.Written members texts ∧ Trailer trailer ∧
    trailer.Written ending ∧ bytes = texts.flatten ++ (ending ++ List.replicate count 0)

/-- The members bind the expected policy: an executable `init` that is not empty, and the policy. -/
def Binds (sha256 : List UInt8 → Digest) (expected : Digest) (members : List Member)
    (binding : InitramfsBinding) : Prop :=
  ∃ init ∈ members, ∃ policy ∈ members,
    (init.name = INIT_NAME ∧ init.Regular ∧ init.header.mode &&& 0o111 ≠ 0 ∧ init.data ≠ []) ∧
    (policy.name = POLICY_NAME ∧ policy.Regular ∧ sha256 policy.data = expected) ∧
    binding = ⟨init.data.length, sha256 init.data, expected, members.length⟩

/-! ## Numbers in a header -/

theorem toDigit16_lt {byte : UInt8} {digit : UInt32} (hdigit : toDigit16 byte = some digit) :
    digit.toNat < 16 := by
  unfold toDigit16 at hdigit
  simp only [UInt8.le_iff_toNat_le] at hdigit
  split at hdigit
  next hrange =>
    cases hdigit
    have hle : (48 : UInt8) ≤ byte := UInt8.le_iff_toNat_le.mpr hrange.1
    have hhigh : byte.toNat ≤ 57 := hrange.2
    rw [UInt8.toNat_toUInt32, UInt8.toNat_sub_of_le _ _ hle]
    have hlow : (48 : UInt8).toNat = 48 := rfl
    omega
  next =>
    split at hdigit
    next hrange =>
      cases hdigit
      have hle : (97 : UInt8) ≤ byte := UInt8.le_iff_toNat_le.mpr hrange.1
      have hhigh : byte.toNat ≤ 102 := hrange.2
      have hlow : (97 : UInt8).toNat = 97 := rfl
      have hten : (10 : UInt8).toNat = 10 := rfl
      rw [UInt8.toNat_toUInt32, UInt8.toNat_add, UInt8.toNat_sub_of_le _ _ hle]
      omega
    next =>
      split at hdigit
      next hrange =>
        cases hdigit
        have hle : (65 : UInt8) ≤ byte := UInt8.le_iff_toNat_le.mpr hrange.1
        have hhigh : byte.toNat ≤ 70 := hrange.2
        have hlow : (65 : UInt8).toNat = 65 := rfl
        have hten : (10 : UInt8).toNat = 10 := rfl
        rw [UInt8.toNat_toUInt32, UInt8.toNat_add, UInt8.toNat_sub_of_le _ _ hle]
        omega
      next => cases hdigit

theorem shift_or_digit {value digit : UInt32} (hvalue : value.toNat < 2 ^ 28)
    (hdigit : digit.toNat < 16) :
    ((value <<< 4) ||| digit).toNat = value.toNat * 16 + digit.toNat := by
  have hfour : (4 : UInt32).toNat % 32 = 4 := rfl
  have hshift : (value <<< 4).toNat = value.toNat <<< 4 := by
    rw [UInt32.toNat_shiftLeft, hfour, Nat.mod_eq_of_lt]
    rw [Nat.shiftLeft_eq]
    omega
  rw [UInt32.toNat_or, hshift, ← Nat.shiftLeft_add_eq_or_of_lt hdigit, Nat.shiftLeft_eq]

theorem hexField_concat (text : List UInt8) (byte : UInt8) :
    hexField (text ++ [byte]) =
      (hexField text).bind fun value =>
        (toDigit16 byte).map fun digit => (value <<< 4) ||| digit := by
  rw [hexField, List.foldlM_append]
  cases hread : hexField text with
  | none =>
      rw [hexField] at hread
      rw [hread]
      rfl
  | some value =>
      rw [hexField] at hread
      rw [hread]
      simp [List.foldlM_cons]

theorem hexNumber_concat (text : List UInt8) (byte : UInt8) :
    hexNumber (text ++ [byte]) =
      (hexNumber text).bind fun value =>
        (toDigit16 byte).map fun digit => value * 16 + digit.toNat := by
  rw [hexNumber, List.foldlM_append]
  cases hread : hexNumber text with
  | none =>
      rw [hexNumber] at hread
      rw [hread]
      rfl
  | some value =>
      rw [hexNumber] at hread
      rw [hread]
      simp [List.foldlM_cons]

theorem hexNumber_lt {text : List UInt8} {value : Nat} (hvalue : hexNumber text = some value) :
    value < 16 ^ text.length := by
  induction text using List.reverseRecOn generalizing value with
  | nil =>
      cases hvalue
      decide
  | append_singleton text byte ih =>
      rw [hexNumber_concat, Option.bind_eq_some_iff] at hvalue
      obtain ⟨high, hhigh, hlow⟩ := hvalue
      obtain ⟨digit, hdigit, rfl⟩ := Option.map_eq_some_iff.mp hlow
      have hbound := ih hhigh
      have hsmall := toDigit16_lt hdigit
      rw [List.length_append, List.length_singleton, pow_succ]
      omega

/-- Up to eight digits are read without losing one. -/
theorem hexField_eq {text : List UInt8} (hlength : text.length ≤ 8) :
    (hexField text).map UInt32.toNat = hexNumber text := by
  induction text using List.reverseRecOn with
  | nil => rfl
  | append_singleton text byte ih =>
      rw [List.length_append, List.length_singleton] at hlength
      have hread := ih (by omega)
      rw [hexField_concat, hexNumber_concat, ← hread]
      cases hhigh : hexField text with
      | none => rfl
      | some value =>
          rw [hhigh] at hread
          have hbound := hexNumber_lt hread.symm
          have hwide : 16 ^ text.length ≤ 16 ^ 7 := Nat.pow_le_pow_right (by decide) (by omega)
          cases hdigit : toDigit16 byte with
          | none => rfl
          | some digit =>
              have hshift := @shift_or_digit value digit (by omega) (toDigit16_lt hdigit)
              simp [hshift]

theorem hexField_eq_some {text : List UInt8} {value : UInt32} (hlength : text.length = 8) :
    hexField text = some value ↔ HexText value text := by
  have hread := hexField_eq hlength.le
  rw [HexText, ← hread, Option.map_eq_some_iff]
  constructor
  · intro hvalue
    exact ⟨hlength, value, hvalue, rfl⟩
  · rintro ⟨-, other, hother, heq⟩
    rw [hother, UInt32.toNat_inj.mp heq]

end Plasmosome.Membrane.Initramfs
