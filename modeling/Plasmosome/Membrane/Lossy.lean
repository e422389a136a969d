import Plasmosome.Membrane.Readiness

/-!
# Text read from any bytes

The text of bytes that may be ill-formed. What a text encodes reads back as it, and
the bytes up to a line feed read the same whatever follows them.
-/

namespace Plasmosome.Membrane.Probe

open Foundation

/-- The text of some bytes, with one replacement character for each ill-formed sequence. -/
def fromUtf8Lossy (bytes : List UInt8) : List Char := Membrane.Probe.lossy bytes.length bytes

/-! ## One sequence after another -/

/-- Whether a byte may follow the first one of a character. -/
def mayFollow (first byte : UInt8) : Bool :=
  let follows (low high : UInt8) (byte : UInt8) : Bool := low ≤ byte && byte ≤ high
  let second : UInt8 → Bool :=
    if 0xC2 ≤ first && first ≤ 0xDF then follows 0x80 0xBF
    else if first = 0xE0 then follows 0xA0 0xBF
    else if first = 0xED then follows 0x80 0x9F
    else if 0xE1 ≤ first && first ≤ 0xEF then follows 0x80 0xBF
    else if first = 0xF0 then follows 0x90 0xBF
    else if 0xF1 ≤ first && first ≤ 0xF3 then follows 0x80 0xBF
    else if first = 0xF4 then follows 0x80 0x8F
    else fun _ => false
  second byte

theorem illFormed_two (first next : UInt8) :
    illFormed [first, next] = if mayFollow first next then 2 else 1 := rfl

theorem illFormed_more (first next third : UInt8) (rest : List UInt8) :
    illFormed (first :: next :: third :: rest) =
      if !mayFollow first next then 1
      else if 0xF0 ≤ first && (0x80 ≤ third && third ≤ 0xBF) then 3
      else 2 := rfl

theorem mayFollow_newline (first : UInt8) : mayFollow first 10 = false := by
  unfold mayFollow
  dsimp only
  split_ifs <;> rfl

theorem illFormed_pos {bytes : List UInt8} (hbytes : bytes ≠ []) :
    0 < illFormed bytes ∧ illFormed bytes ≤ bytes.length := by
  match bytes, hbytes with
  | [_], _ => exact ⟨Nat.one_pos, le_rfl⟩
  | [first, next], _ =>
      rw [illFormed_two, List.length_cons, List.length_singleton]
      split <;> omega
  | first :: next :: third :: rest, _ =>
      rw [illFormed_more, List.length_cons, List.length_cons, List.length_cons]
      split_ifs <;> omega

theorem utf8Size_le {bytes : List UInt8} {char : Char}
    (hchar : Utf8.decodeChar? bytes = some char) :
    char.utf8Size ≤ bytes.length := by
  obtain ⟨rest, rfl⟩ := Utf8.decodeChar?_eq_some.mp hchar
  simp

/-- Fuel for all the bytes is enough, and more changes nothing. -/
theorem lossy_fuel {fuel other : Nat} {bytes : List UInt8} (hfuel : bytes.length ≤ fuel)
    (hother : bytes.length ≤ other) : lossy fuel bytes = lossy other bytes := by
  induction fuel generalizing other bytes with
  | zero =>
      rw [List.length_eq_zero_iff.mp (Nat.le_zero.mp hfuel)]
      cases other <;> rfl
  | succ fuel ih =>
      cases bytes with
      | nil => cases other <;> rfl
      | cons byte rest =>
          rw [List.length_cons] at hfuel hother
          obtain ⟨other, rfl⟩ := Nat.exists_eq_succ_of_ne_zero (show other ≠ 0 by omega)
          have hdrop : ∀ count, 0 < count → ((byte :: rest).drop count).length ≤ rest.length := by
            intro count hcount
            rw [List.length_drop, List.length_cons]
            omega
          have hsame : ∀ count, 0 < count → lossy fuel ((byte :: rest).drop count) =
              lossy other ((byte :: rest).drop count) := by
            intro count hcount
            have hshort := hdrop count hcount
            exact ih (by omega) (by omega)
          rw [lossy, lossy]
          cases Utf8.decodeChar? (byte :: rest) with
          | some char => exact congrArg (char :: ·) (hsame _ char.utf8Size_pos)
          | none => exact congrArg ('\uFFFD' :: ·) (hsame _ (illFormed_pos (by simp)).1)

theorem lossy_of_length {fuel : Nat} {bytes : List UInt8} (hfuel : bytes.length ≤ fuel) :
    lossy fuel bytes = fromUtf8Lossy bytes := lossy_fuel hfuel le_rfl

theorem fromUtf8Lossy_of_char {bytes : List UInt8} {char : Char}
    (hchar : Utf8.decodeChar? bytes = some char) :
    fromUtf8Lossy bytes = char :: fromUtf8Lossy (bytes.drop char.utf8Size) := by
  have hsize := utf8Size_le hchar
  have hpos := char.utf8Size_pos
  cases bytes with
  | nil => simp at hsize; omega
  | cons byte rest =>
      have hshort : ((byte :: rest).drop char.utf8Size).length ≤ rest.length := by
        rw [List.length_drop, List.length_cons]
        omega
      rw [fromUtf8Lossy, List.length_cons, lossy, hchar]
      exact congrArg (char :: ·) (lossy_of_length hshort)

theorem fromUtf8Lossy_of_none {bytes : List UInt8} (hbytes : bytes ≠ [])
    (hchar : Utf8.decodeChar? bytes = none) :
    fromUtf8Lossy bytes = '\uFFFD' :: fromUtf8Lossy (bytes.drop (illFormed bytes)) := by
  have hpos := (illFormed_pos hbytes).1
  cases bytes with
  | nil => exact absurd rfl hbytes
  | cons byte rest =>
      have hshort : ((byte :: rest).drop (illFormed (byte :: rest))).length ≤ rest.length := by
        rw [List.length_drop, List.length_cons]
        omega
      rw [fromUtf8Lossy, List.length_cons, lossy, hchar]
      exact congrArg ('\uFFFD' :: ·) (lossy_of_length hshort)

/-- What encodes a text reads as the text. -/
theorem fromUtf8Lossy_encode (text : List Char) : fromUtf8Lossy (Utf8.encode text) = text := by
  induction text with
  | nil => rfl
  | cons char rest ih =>
      have hchar := Utf8.decodeChar?_encodeChar_append char (Utf8.encode rest)
      rw [Utf8.encode_cons, fromUtf8Lossy_of_char hchar, Utf8.drop_encodeChar_append, ih]

/-! ## Line feeds -/

/-- A line feed after some bytes is in no character that begins among them. -/
theorem decodeChar?_newline {bytes : List UInt8} (hbytes : bytes ≠ []) (rest : List UInt8) :
    Utf8.decodeChar? (bytes ++ 10 :: rest) = Utf8.decodeChar? bytes := by
  apply Option.ext
  intro char
  rw [Utf8.decodeChar?_eq_some, Utf8.decodeChar?_eq_some]
  constructor
  · rintro ⟨after, heq⟩
    rcases List.append_eq_append_iff.mp heq with ⟨inside, hencode, hrest⟩ | ⟨inside, hencode, -⟩
    · cases inside with
      | nil => exact ⟨[], by rw [hencode, List.append_nil, List.append_nil]⟩
      | cons byte inside =>
          obtain ⟨rfl, -⟩ := List.cons.inj hrest
          have hmem : (10 : UInt8) ∈ String.utf8EncodeChar char := by
            rw [hencode]
            exact List.mem_append_right _ List.mem_cons_self
          have hnewline : char = '\n' :=
            Char.toNat_inj.mp (Utf8.val_of_mem_encodeChar (by decide) hmem)
          have hlength := congrArg List.length hencode
          have hpos := List.length_pos_iff.mpr hbytes
          rw [hnewline, List.length_append, List.length_cons] at hlength
          have hone : (String.utf8EncodeChar '\n').length = 1 := by decide
          omega
    · exact ⟨inside, hencode⟩
  · rintro ⟨after, rfl⟩
    exact ⟨after ++ 10 :: rest, by rw [List.append_assoc]⟩

theorem illFormed_newline {bytes : List UInt8} (hbytes : bytes ≠ []) (rest : List UInt8) :
    illFormed (bytes ++ 10 :: rest) = illFormed bytes := by
  match bytes, hbytes with
  | [first], _ =>
      cases rest with
      | nil => rw [List.singleton_append, illFormed_two, mayFollow_newline, if_neg (by decide)]; rfl
      | cons byte rest =>
          rw [List.singleton_append, illFormed_more, mayFollow_newline, if_pos (by decide)]
          rfl
  | [first, next], _ =>
      -- A line feed is no continuation byte either.
      have hthird : (0x80 ≤ (10 : UInt8) && (10 : UInt8) ≤ 0xBF) = false := by decide
      rw [List.cons_append, List.singleton_append, illFormed_more, illFormed_two, hthird]
      cases mayFollow first next <;> simp
  | first :: next :: third :: more, _ => rfl

/-- The text of bytes up to a line feed does not depend on what follows it. -/
theorem fromUtf8Lossy_newline (bytes rest : List UInt8) :
    fromUtf8Lossy (bytes ++ 10 :: rest) = fromUtf8Lossy bytes ++ '\n' :: fromUtf8Lossy rest := by
  induction hlength : bytes.length using Nat.strong_induction_on generalizing bytes with
  | _ length ih =>
      by_cases hbytes : bytes = []
      · subst hbytes
        exact fromUtf8Lossy_of_char (Utf8.decodeChar?_encodeChar_append '\n' rest)
      · have hchar := decodeChar?_newline hbytes rest
        have hpos := List.length_pos_iff.mpr hbytes
        cases hfirst : Utf8.decodeChar? bytes with
        | some char =>
            have hsize := utf8Size_le hfirst
            have hone := char.utf8Size_pos
            rw [fromUtf8Lossy_of_char hfirst, fromUtf8Lossy_of_char (hchar.trans hfirst),
              List.drop_append_of_le_length hsize,
              ih (bytes.drop char.utf8Size).length (by rw [List.length_drop]; omega) _ rfl]
            rfl
        | none =>
            obtain ⟨hone, hsize⟩ := illFormed_pos hbytes
            rw [fromUtf8Lossy_of_none hbytes hfirst,
              fromUtf8Lossy_of_none (by simp) (hchar.trans hfirst), illFormed_newline hbytes,
              List.drop_append_of_le_length hsize,
              ih (bytes.drop (illFormed bytes)).length (by rw [List.length_drop]; omega) _ rfl]
            rfl

/-- A text has a line feed only where the bytes have one. -/
theorem newline_not_mem_lossy {bytes : List UInt8} (hbytes : 10 ∉ bytes) :
    '\n' ∉ fromUtf8Lossy bytes := by
  induction hlength : bytes.length using Nat.strong_induction_on generalizing bytes with
  | _ length ih =>
      by_cases hempty : bytes = []
      · subst hempty
        exact List.not_mem_nil
      · have hpos := List.length_pos_iff.mpr hempty
        have hrest : ∀ count, 0 < count → '\n' ∉ fromUtf8Lossy (bytes.drop count) := by
          intro count hcount
          have hshort : (bytes.drop count).length < length := by
            rw [List.length_drop]
            omega
          exact ih _ hshort (fun hmem => hbytes (List.mem_of_mem_drop hmem)) rfl
        cases hfirst : Utf8.decodeChar? bytes with
        | some char =>
            rw [fromUtf8Lossy_of_char hfirst, List.mem_cons]
            rintro (rfl | hmem)
            · obtain ⟨after, rfl⟩ := Utf8.decodeChar?_eq_some.mp hfirst
              exact hbytes (List.mem_append_left _ (by decide))
            · exact hrest _ char.utf8Size_pos hmem
        | none =>
            rw [fromUtf8Lossy_of_none hempty hfirst, List.mem_cons]
            rintro (heq | hmem)
            · exact absurd heq (by decide)
            · exact hrest _ (illFormed_pos hempty).1 hmem

end Plasmosome.Membrane.Probe
