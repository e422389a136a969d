import Mathlib

/-!
# Text as bytes

The UTF-8 encoding of a list of characters, and a decoder that stops at the
first byte that begins no character. The decoder accepts exactly the encodings.
-/

namespace Foundation.Utf8

/-- The number of bytes of a text. -/
def size (text : List Char) : Nat := (text.map Char.utf8Size).sum

def encode (text : List Char) : List UInt8 := text.flatMap String.utf8EncodeChar

@[simp] theorem size_nil : size [] = 0 := rfl

@[simp] theorem size_cons (char : Char) (text : List Char) :
    size (char :: text) = char.utf8Size + size text := by
  simp [size]

@[simp] theorem size_append (first second : List Char) :
    size (first ++ second) = size first + size second := by
  simp [size]

@[simp] theorem encode_nil : encode [] = [] := rfl

@[simp] theorem encode_cons (char : Char) (text : List Char) :
    encode (char :: text) = String.utf8EncodeChar char ++ encode text := by
  simp [encode]

@[simp] theorem encode_append (first second : List Char) :
    encode (first ++ second) = encode first ++ encode second := by
  simp [encode]

@[simp] theorem length_encode (text : List Char) : (encode text).length = size text := by
  induction text with
  | nil => rfl
  | cons char text ih => simp [ih]

/-- The character the bytes begin with, if they begin with one. -/
def decodeChar? (bytes : List UInt8) : Option Char := bytes.toByteArray.utf8DecodeChar? 0

theorem decodeChar?_eq_some {bytes : List UInt8} {char : Char} :
    decodeChar? bytes = some char ↔ ∃ rest, bytes = String.utf8EncodeChar char ++ rest := by
  constructor
  · intro hchar
    obtain ⟨rest, hrest⟩ := ByteArray.exists_of_utf8DecodeChar?_eq_some hchar
    refine ⟨rest.data.toList, ?_⟩
    have hlists := congrArg (fun array => array.data.toList) hrest
    simpa using hlists
  · intro hrest
    obtain ⟨rest, rfl⟩ := hrest
    rw [decodeChar?, List.toByteArray_append]
    exact ByteArray.utf8DecodeChar?_utf8EncodeChar_append

theorem decodeChar?_encodeChar_append (char : Char) (rest : List UInt8) :
    decodeChar? (String.utf8EncodeChar char ++ rest) = some char :=
  decodeChar?_eq_some.mpr ⟨rest, rfl⟩

theorem drop_encodeChar_append (char : Char) (rest : List UInt8) :
    (String.utf8EncodeChar char ++ rest).drop char.utf8Size = rest := by
  rw [List.drop_append_of_le_length (by simp), List.drop_of_length_le (by simp), List.nil_append]

/-- The text the bytes encode, or the offset of the first byte that begins no character. -/
def decode (bytes : List UInt8) (offset : Nat) : Except Nat (List Char) :=
  if _hempty : bytes = [] then .ok []
  else
    match decodeChar? bytes with
    | none => .error offset
    | some char => do
        let rest ← decode (bytes.drop char.utf8Size) (offset + char.utf8Size)
        return char :: rest
termination_by bytes.length
decreasing_by
  have hsize := char.utf8Size_pos
  have hlength := List.length_pos_iff.mpr _hempty
  rw [List.length_drop]
  omega

theorem decode_encodeChar_append (char : Char) (rest : List UInt8) (offset : Nat) :
    decode (String.utf8EncodeChar char ++ rest) offset =
      (decode rest (offset + char.utf8Size)).map (char :: ·) := by
  have hne : String.utf8EncodeChar char ++ rest ≠ [] := by
    intro hempty
    have hlength := congrArg List.length hempty
    have hsize := char.utf8Size_pos
    simp at hlength
    omega
  rw [decode, dif_neg hne, decodeChar?_encodeChar_append]
  simp only [drop_encodeChar_append]
  cases decode rest (offset + char.utf8Size) <;> rfl

theorem decode_nil (offset : Nat) : decode [] offset = .ok [] := by
  rw [decode]
  rfl

/-- Bytes decode to a text when they are empty or begin with its first character. -/
theorem decode_cases {bytes : List UInt8} {offset : Nat} {text : List Char}
    (hdecode : decode bytes offset = .ok text) :
    (bytes = [] ∧ text = []) ∨
      ∃ char rest decoded, bytes = String.utf8EncodeChar char ++ rest ∧
        text = char :: decoded ∧ decode rest (offset + char.utf8Size) = .ok decoded := by
  by_cases hempty : bytes = []
  · rw [hempty, decode_nil] at hdecode
    exact .inl ⟨hempty, (Except.ok.inj hdecode).symm⟩
  cases hchar : decodeChar? bytes with
  | none =>
      rw [decode, dif_neg hempty, hchar] at hdecode
      cases hdecode
  | some char =>
      obtain ⟨rest, rfl⟩ := decodeChar?_eq_some.mp hchar
      rw [decode_encodeChar_append] at hdecode
      cases hrest : decode rest (offset + char.utf8Size) with
      | error _ =>
          rw [hrest] at hdecode
          cases hdecode
      | ok decoded =>
          rw [hrest] at hdecode
          exact .inr ⟨char, rest, decoded, rfl, (Except.ok.inj hdecode).symm, hrest⟩

@[simp] theorem decode_encode (text : List Char) (offset : Nat) :
    decode (encode text) offset = .ok text := by
  induction text generalizing offset with
  | nil => exact decode_nil offset
  | cons char text ih =>
      rw [encode_cons, decode_encodeChar_append, ih]
      rfl

theorem eq_encode_of_decode {bytes : List UInt8} {offset : Nat} {text : List Char}
    (hdecode : decode bytes offset = .ok text) : bytes = encode text := by
  induction text generalizing bytes offset with
  | nil =>
      rcases decode_cases hdecode with ⟨hbytes, _⟩ | ⟨char, rest, decoded, _, htext, _⟩
      · exact hbytes
      · cases htext
  | cons first text ih =>
      rcases decode_cases hdecode with ⟨_, htext⟩ | ⟨char, rest, decoded, rfl, htext, hrest⟩
      · cases htext
      · obtain ⟨rfl, rfl⟩ := List.cons.inj htext
        rw [encode_cons, ← ih hrest]

theorem decode_eq_ok {bytes : List UInt8} {offset : Nat} {text : List Char} :
    decode bytes offset = .ok text ↔ bytes = encode text := by
  constructor
  · exact eq_encode_of_decode
  · intro hbytes
    rw [hbytes, decode_encode]

theorem encode_injective : Function.Injective encode := by
  intro first second hequal
  have hdecode := decode_encode first 0
  rw [hequal, decode_encode] at hdecode
  exact (Except.ok.inj hdecode).symm

/-- What is the beginning as bytes is it as characters. -/
theorem prefix_of_encode {first second : List Char}
    (hencode : encode first <+: encode second) : first <+: second := by
  induction first generalizing second with
  | nil => exact List.nil_prefix
  | cons char first ih =>
      cases second with
      | nil =>
          have hnil := congrArg List.length (List.prefix_nil.mp hencode)
          have hsize := char.utf8Size_pos
          rw [length_encode, size_cons] at hnil
          simp at hnil
          omega
      | cons other second =>
          obtain ⟨rest, hrest⟩ := hencode
          rw [encode_cons, encode_cons, List.append_assoc] at hrest
          have hchar := decodeChar?_encodeChar_append char (encode first ++ rest)
          rw [hrest, decodeChar?_encodeChar_append] at hchar
          obtain rfl := Option.some.inj hchar
          rw [List.append_cancel_left_eq] at hrest
          exact List.cons_prefix_cons.mpr ⟨rfl, ih ⟨rest, hrest⟩⟩

/-! ## Single bytes -/

/-- A byte below 128 among those of a character is the whole of it. -/
theorem val_of_mem_encodeChar {char : Char} {byte : UInt8} (hlow : byte.toNat < 128)
    (hmem : byte ∈ String.utf8EncodeChar char) : char.val.toNat = byte.toNat := by
  simp only [String.utf8EncodeChar] at hmem
  have hsmall : ∀ value : Nat, byte = UInt8.ofNat value → value % 256 = byte.toNat := by
    intro value heq
    have hcode := congrArg UInt8.toNat heq
    rw [UInt8.toNat_ofNat'] at hcode
    exact hcode.symm
  split_ifs at hmem <;> simp only [List.mem_cons, List.not_mem_nil, or_false] at hmem
  · have := hsmall _ hmem
    omega
  · rcases hmem with hmem | hmem <;> have := hsmall _ hmem <;> omega
  · rcases hmem with hmem | hmem | hmem <;> have := hsmall _ hmem <;> omega
  · rcases hmem with hmem | hmem | hmem | hmem <;> have := hsmall _ hmem <;> omega

/-- A byte below 128 is a character by itself. -/
theorem encodeChar_of_lt {byte : UInt8} (hlow : byte.toNat < 128) :
    String.utf8EncodeChar (Char.ofNat byte.toNat) = [byte] := by
  have hval : (Char.ofNat byte.toNat).val.toNat = byte.toNat := by
    have hvalid : byte.toNat.isValidChar := Or.inl (by omega)
    rw [Char.ofNat, dif_pos hvalid]
    rfl
  simp only [String.utf8EncodeChar, hval]
  rw [if_pos (by omega)]
  congr 1
  exact UInt8.ofNat_toNat

theorem exists_encode_of_lt {bytes : List UInt8} (hlow : ∀ byte ∈ bytes, byte.toNat < 128) :
    ∃ text, bytes = encode text := by
  refine ⟨bytes.map fun byte => Char.ofNat byte.toNat, ?_⟩
  induction bytes with
  | nil => rfl
  | cons byte bytes ih =>
      rw [List.map_cons, encode_cons, encodeChar_of_lt (hlow byte List.mem_cons_self),
        ← ih fun other hmem => hlow other (List.mem_cons_of_mem byte hmem)]
      rfl

end Foundation.Utf8
