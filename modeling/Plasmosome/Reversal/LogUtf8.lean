import Plasmosome.Membrane.Lossy
import Plasmosome.Reversal.LogFile

/-!
# Text cut short

A text cut within a character is refused as an unfinished text, never as an invalid one.
-/

namespace Plasmosome.Reversal

open Foundation
open Membrane.Probe (illFormed mayFollow illFormed_two illFormed_more)

/-! ## One character -/

theorem mayFollow_of_range {first byte : UInt8}
    (hfirst : 0xC2 ≤ first.toNat ∧ first.toNat ≤ 0xF4)
    (hbyte : 0x80 ≤ byte.toNat ∧ byte.toNat ≤ 0xBF)
    (hoverlong : (first.toNat = 0xE0 → 0xA0 ≤ byte.toNat) ∧
        (first.toNat = 0xF0 → 0x90 ≤ byte.toNat))
    (hrange : (first.toNat = 0xED → byte.toNat ≤ 0x9F) ∧ (first.toNat = 0xF4 → byte.toNat ≤ 0x8F)) :
    mayFollow first byte = true := by
  unfold mayFollow
  simp only [UInt8.le_iff_toNat_le, ← UInt8.toNat_inj, UInt8.reduceToNat, Bool.and_eq_true,
    decide_eq_true_eq]
  grind

theorem errorLen_one {first : UInt8} (hfirst : 0xC2 ≤ first.toNat ∧ first.toNat ≤ 0xF4) :
    errorLen [first] = none := by
  have hlead : (0xC2 ≤ first && first ≤ 0xF4) = true := by
    simpa [UInt8.le_iff_toNat_le] using hfirst
  simp only [errorLen, hlead, if_true]

theorem errorLen_two {first next : UInt8} (hnext : mayFollow first next = true) :
    errorLen [first, next] = none := by
  simp [errorLen, illFormed_two, hnext]

theorem errorLen_three {first next third : UInt8} (hnext : mayFollow first next = true)
    (hfirst : 0xF0 ≤ first.toNat) (hthird : 0x80 ≤ third.toNat ∧ third.toNat ≤ 0xBF) :
    errorLen [first, next, third] = none := by
  have hlead : (0xF0 ≤ first && (0x80 ≤ third && third ≤ 0xBF)) = true := by
    simpa [UInt8.le_iff_toNat_le] using ⟨hfirst, hthird⟩
  simp only [errorLen, illFormed_more, hnext, hlead]
  simp

/-- The beginnings of a character that are neither empty nor all of it. -/
inductive Beginning (bytes : List UInt8) : List UInt8 → Prop where
  | one {first next : UInt8} {rest : List UInt8} (hbytes : bytes = first :: next :: rest) :
      Beginning bytes [first]
  | two {first next third : UInt8} {rest : List UInt8} (hbytes : bytes = first :: next :: third :: rest) :
      Beginning bytes [first, next]
  | three {first next third fourth : UInt8} (hbytes : bytes = [first, next, third, fourth]) :
      Beginning bytes [first, next, third]

theorem prefix_beginning {char : Char} {cut : List UInt8}
    (hcut : cut <+: String.utf8EncodeChar char) (hne : cut ≠ [])
    (hproper : cut ≠ String.utf8EncodeChar char) : Beginning (String.utf8EncodeChar char) cut := by
  have hsize : (String.utf8EncodeChar char).length ≤ 4 := by
    rw [String.length_utf8EncodeChar]
    exact char.utf8Size_le_four
  obtain ⟨rest, hrest⟩ := hcut
  cases rest with
  | nil => exact absurd (by simpa using hrest) hproper
  | cons next rest =>
      match cut, hne, hrest with
      | [first], _, hrest => exact .one hrest.symm
      | [first, second], _, hrest => exact .two hrest.symm
      | [first, second, third], _, hrest =>
          cases rest with
          | nil => exact .three hrest.symm
          | cons fifth rest =>
              rw [← hrest] at hsize
              simp at hsize
              omega
      | first :: second :: third :: fourth :: more, _, hrest =>
          rw [← hrest] at hsize
          simp at hsize
          omega

theorem errorLen_beginning {char : Char} {cut : List UInt8}
    (hcut : Beginning (String.utf8EncodeChar char) cut) : errorLen cut = none := by
  have hvalid : char.val.toNat < 0xD800 ∨ 0xDFFF < char.val.toNat ∧ char.val.toNat < 0x110000 :=
    char.valid
  generalize hcode : char.val.toNat = code at hvalid
  have hbytes : String.utf8EncodeChar char =
      if code ≤ 0x7f then [UInt8.ofNat code]
      else if code ≤ 0x7ff then [UInt8.ofNat (code / 64 % 0x20 + 0xc0), UInt8.ofNat (code % 0x40 + 0x80)]
      else if code ≤ 0xffff then
        [UInt8.ofNat (code / 4096 % 0x10 + 0xe0), UInt8.ofNat (code / 64 % 0x40 + 0x80),
          UInt8.ofNat (code % 0x40 + 0x80)]
      else
        [UInt8.ofNat (code / 262144 % 0x08 + 0xf0), UInt8.ofNat (code / 4096 % 0x40 + 0x80),
          UInt8.ofNat (code / 64 % 0x40 + 0x80), UInt8.ofNat (code % 0x40 + 0x80)] := by
    rw [← hcode]
    rfl
  rw [hbytes] at hcut
  split_ifs at hcut with hone htwo hthree
  · cases hcut <;> simp_all
  · cases hcut with
    | one hbytes =>
        obtain ⟨rfl, -⟩ := List.cons.inj hbytes
        apply errorLen_one
        rw [UInt8.toNat_ofNat']
        omega
    | two hbytes => simp at hbytes
    | three hbytes => simp at hbytes
  · cases hcut with
    | one hbytes =>
        obtain ⟨rfl, -⟩ := List.cons.inj hbytes
        apply errorLen_one
        rw [UInt8.toNat_ofNat']
        omega
    | two hbytes =>
        simp only [List.cons.injEq] at hbytes
        obtain ⟨rfl, rfl, -⟩ := hbytes
        apply errorLen_two
        apply mayFollow_of_range <;> simp only [UInt8.toNat_ofNat'] <;> omega
    | three hbytes => simp at hbytes
  · cases hcut with
    | one hbytes =>
        obtain ⟨rfl, -⟩ := List.cons.inj hbytes
        apply errorLen_one
        rw [UInt8.toNat_ofNat']
        omega
    | two hbytes =>
        simp only [List.cons.injEq] at hbytes
        obtain ⟨rfl, rfl, -⟩ := hbytes
        apply errorLen_two
        apply mayFollow_of_range <;> simp only [UInt8.toNat_ofNat'] <;> omega
    | three hbytes =>
        simp only [List.cons.injEq] at hbytes
        obtain ⟨rfl, rfl, rfl, -⟩ := hbytes
        apply errorLen_three
        · apply mayFollow_of_range <;> simp only [UInt8.toNat_ofNat'] <;> omega
        · rw [UInt8.toNat_ofNat']
          omega
        · rw [UInt8.toNat_ofNat']
          omega

theorem decodeChar?_cut {char : Char} {cut : List UInt8} (hcut : cut <+: String.utf8EncodeChar char)
    (hproper : cut ≠ String.utf8EncodeChar char) : Utf8.decodeChar? cut = none := by
  rw [Option.eq_none_iff_forall_ne_some]
  intro other hother
  obtain ⟨rest, rfl⟩ := Utf8.decodeChar?_eq_some.mp hother
  obtain ⟨after, hafter⟩ := hcut
  have hsame : Utf8.decodeChar? (String.utf8EncodeChar char) = some other := by
    rw [← hafter, List.append_assoc]
    exact Utf8.decodeChar?_encodeChar_append other _
  have hself := Utf8.decodeChar?_encodeChar_append char []
  rw [List.append_nil, hsame] at hself
  obtain rfl := Option.some.inj hself
  rw [List.append_assoc, List.append_right_eq_self, List.append_eq_nil_iff] at hafter
  obtain ⟨rfl, rfl⟩ := hafter
  exact hproper (List.append_nil _)

/-! ## A text -/

/-- Whatever is refused in the beginning of a text, more bytes could have made it a character. -/
theorem decode_cut {text : List Char} {cut : List UInt8} (hcut : cut <+: Utf8.encode text)
    (start : Nat) {offset : Nat} (hdecode : Utf8.decode cut start = .error offset) :
    start ≤ offset ∧ errorLen (cut.drop (offset - start)) = none := by
  induction text generalizing cut start with
  | nil =>
      rw [List.prefix_nil.mp hcut, Utf8.decode_nil] at hdecode
      cases hdecode
  | cons char text ih =>
      rw [Utf8.encode_cons] at hcut
      by_cases hwhole : String.utf8EncodeChar char <+: cut
      · obtain ⟨rest, rfl⟩ := hwhole
        rw [List.prefix_append_right_inj] at hcut
        rw [Utf8.decode_encodeChar_append] at hdecode
        cases hrest : Utf8.decode rest (start + char.utf8Size) with
        | ok decoded =>
            rw [hrest] at hdecode
            cases hdecode
        | error failed =>
            rw [hrest] at hdecode
            cases hdecode
            obtain ⟨hle, hlen⟩ := ih hcut _ hrest
            refine ⟨by omega, ?_⟩
            have hdrop : offset - start = char.utf8Size +
              (offset - (start + char.utf8Size)) := by omega
            rw [hdrop, ← List.drop_drop, Utf8.drop_encodeChar_append]
            exact hlen
      · have hwithin : cut <+: String.utf8EncodeChar char := by
          rcases List.prefix_or_prefix_of_prefix hcut (List.prefix_append _ _) with hshort | hlong
          · exact hshort
          · exact absurd hlong hwhole
        have hproper : cut ≠ String.utf8EncodeChar char := by
          rintro rfl
          exact hwhole (List.prefix_refl _)
        by_cases hempty : cut = []
        · rw [hempty, Utf8.decode_nil] at hdecode
          cases hdecode
        · rw [Utf8.decode, dif_neg hempty, decodeChar?_cut hwithin hproper] at hdecode
          cases hdecode
          rw [Nat.sub_self, List.drop_zero]
          exact ⟨le_rfl, errorLen_beginning (prefix_beginning hwithin hempty hproper)⟩

/-- A line without its end is not refused for how it is encoded. -/
theorem invalidUtf8_cut {text : List Char} {cut : List UInt8} (hcut : cut <+: Utf8.encode text) :
    invalidUtf8 false cut = none := by
  unfold invalidUtf8 utf8Error
  cases hdecode : Utf8.decode cut 0 with
  | ok _ => rfl
  | error offset =>
      have hlen := (decode_cut hcut 0 hdecode).2
      rw [Nat.sub_zero] at hlen
      simp [hlen]

theorem invalidUtf8_encode (newlineEnded : Bool) (text : List Char) :
    invalidUtf8 newlineEnded (Utf8.encode text) = none := by
  unfold invalidUtf8 utf8Error
  rw [Utf8.decode_encode]
  rfl

end Plasmosome.Reversal
