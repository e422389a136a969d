import Plasmosome.Manifest.Cidr

/-!
# One spelling per network

A network is written in one way only, the network of a refused text is accepted, and
membership compares the first bits.
-/

namespace Plasmosome.Manifest

open Foundation Backend

/-! ## Addresses -/

/-- An address an IP literal may spell: it carries no IPv4 address. -/
def Plain (address : IpAddr) : Prop := ∀ v6, address = .v6 v6 → embeddedIpv4 v6 = none

theorem embeddedIpv4_eq_none {address : Ipv6Addr} : embeddedIpv4 address = none ↔
    address.number ≤ 1 ∨
      (address.number / 2 ^ 32 ≠ 0 ∧ address.number / 2 ^ 32 ≠ 65535) := by
  have hlow : (address.isUnspecified || address.isLoopback) = true ↔ address.number ≤ 1 := by
    rw [Bool.or_eq_true, Ipv6Addr.isUnspecified_iff, Ipv6Addr.isLoopback_iff]
    omega
  unfold embeddedIpv4
  split
  next hspecial => simp [hlow.mp hspecial]
  next hspecial =>
    rw [hlow] at hspecial
    rw [Ipv6Addr.toIpv4_eq_none, or_iff_right hspecial]

theorem canonicalIpLiteral_eq_some {text : String} {address : IpAddr} :
    canonicalIpLiteral text = some address ↔ address.display = text ∧ Plain address := by
  have hliteral :
      ∀ address, ipLiteral text address = .ok () ↔ address.display = text ∧ Plain address := by
    intro address
    unfold ipLiteral Plain
    cases address with
    | v4 address => simp
    | v6 address => cases hembedded : embeddedIpv4 address <;> simp [hembedded]
  unfold canonicalIpLiteral
  constructor
  · intro htext
    split at htext
    next => cases htext
    next read hread =>
      split at htext
      next haccepted =>
        cases htext
        exact (hliteral address).mp haccepted
      next => cases htext
  · intro haddress
    obtain ⟨rfl, -⟩ := id haddress
    simp only [IpAddr.parse_display, (hliteral address).mpr haddress]

/-- What clearing the low bits leaves of the upper part. -/
theorem upper_kept {number : Nat} {shift : Nat}
    (hnumber : number ≤ 1 ∨ (number / 2 ^ 32 ≠ 0 ∧ number / 2 ^ 32 ≠ 65535)) :
    number / 2 ^ shift * 2 ^ shift ≤ 1 ∨
      (number / 2 ^ shift * 2 ^ shift / 2 ^ 32 ≠ 0 ∧
        number / 2 ^ shift * 2 ^ shift / 2 ^ 32 ≠ 65535) := by
  have hbelow : number / 2 ^ shift * 2 ^ shift ≤ number := Nat.div_mul_le_self _ _
  rcases hnumber with hsmall | hupper
  · exact Or.inl (hbelow.trans hsmall)
  · by_cases hshift : shift ≤ 32
    · -- The part above bit 32 is not touched.
      have hsame : number / 2 ^ shift * 2 ^ shift / 2 ^ 32 = number / 2 ^ 32 := by
        have hpower : 2 ^ 32 = 2 ^ shift * 2 ^ (32 - shift) := by
          rw [← pow_add, Nat.add_sub_cancel' hshift]
        rw [hpower, ← Nat.div_div_eq_div_mul, Nat.mul_div_cancel _ (by positivity),
          Nat.div_div_eq_div_mul]
      rw [hsame]
      exact Or.inr hupper
    · -- The upper part is even, and zero only with the whole number.
      have hpower : 2 ^ shift = 2 ^ (shift - 33) * 2 * 2 ^ 32 := by
        rw [mul_assoc, ← pow_succ', ← pow_add]
        congr 1
        omega
      have heven : number / 2 ^ shift * 2 ^ shift / 2 ^ 32 =
          number / 2 ^ shift * 2 ^ (shift - 33) * 2 := by
        rw [hpower, ← mul_assoc, ← mul_assoc, Nat.mul_div_cancel _ (by positivity)]
      rcases Nat.eq_zero_or_pos (number / 2 ^ shift) with hzero | hpositive
      · left
        rw [hzero, zero_mul]
        exact Nat.zero_le 1
      · have hkept : 0 < number / 2 ^ shift * 2 ^ (shift - 33) :=
          Nat.mul_pos hpositive (by positivity)
        right
        rw [heven]
        omega

theorem plain_masked {address kept : IpAddr} {prefixLen : UInt8}
    (hkept : masked address prefixLen = some kept) (hplain : Plain address) : Plain kept := by
  rintro result rfl
  rcases masked_eq_some.mp hkept with ⟨v4, word, -, -, heq⟩ | ⟨v6, word, rfl, hword, heq⟩
  · cases heq
  · cases heq
    have hnumber := embeddedIpv4_eq_none.mp (hplain v6 rfl)
    rw [embeddedIpv4_eq_none, Ipv6Addr.number_fromBits, toNat_leadingBits hword,
      Ipv6Addr.toNat_toBits]
    exact upper_kept hnumber

theorem masked_v4 {v4 kept : Ipv4Addr} {prefixLen : UInt8} :
    masked (.v4 v4) prefixLen = some (.v4 kept) ↔
      leadingBits prefixLen.toNat v4.toBits = some kept.toBits := by
  rw [masked, Option.map_eq_some_iff]
  constructor
  · rintro ⟨word, hword, heq⟩
    cases heq
    rw [hword, Ipv4Addr.toBits_fromBits]
  · intro hword
    exact ⟨kept.toBits, hword, by rw [Ipv4Addr.fromBits_toBits]⟩

theorem masked_v6 {v6 kept : Ipv6Addr} {prefixLen : UInt8} :
    masked (.v6 v6) prefixLen = some (.v6 kept) ↔
      leadingBits prefixLen.toNat v6.toBits = some kept.toBits := by
  rw [masked, Option.map_eq_some_iff]
  constructor
  · rintro ⟨word, hword, heq⟩
    cases heq
    rw [hword, Ipv6Addr.toBits_fromBits]
  · intro hword
    exact ⟨kept.toBits, hword, by rw [Ipv6Addr.fromBits_toBits]⟩

/-- An address of a network's family is masked to the network when their first bits agree. -/
theorem masked_eq_network {address network : IpAddr} {prefixLen : UInt8}
    (hnetwork : masked network prefixLen = some network)
    (hfamily : address.isIpv4 = network.isIpv4) :
    masked address prefixLen = some network ↔
      ∀ index < prefixLen.toNat, address.bit index = network.bit index := by
  cases network with
  | v4 network =>
      cases address with
      | v4 address =>
          rw [masked_v4] at hnetwork ⊢
          exact leadingBits_eq_iff hnetwork
      | v6 address => cases hfamily
  | v6 network =>
      cases address with
      | v4 address => cases hfamily
      | v6 address =>
          rw [masked_v6] at hnetwork ⊢
          exact leadingBits_eq_iff hnetwork

theorem width_eq_of_isIpv4 {address network : IpAddr} (hfamily : address.isIpv4 = network.isIpv4) :
    address.width = network.width := by
  cases address <;> cases network <;> first | rfl | cases hfamily

/-! ## Prefixes -/

/-- The texts `prefixLength` reads are the decimal texts of numbers. -/
theorem spelled_iff {text : List Char} :
    (!(!text.isEmpty && text.all Char.isDigit) || (1 < text.length && text.head? = some '0')) =
    false ↔
      Nat.toDigits 10 (Nat.ofDigitChars 10 text 0) = text := by
  have hguard : (!(!text.isEmpty && text.all Char.isDigit) ||
      (1 < text.length && text.head? = some '0')) = false ↔
      text ≠ [] ∧ (∀ char ∈ text, char.isDigit = true) ∧
      (text.head? = some '0' → text.length ≤ 1) := by
    rw [Bool.or_eq_false_iff, Bool.not_eq_false', Bool.and_eq_true, Bool.and_eq_false_iff,
      Bool.not_eq_true', List.isEmpty_eq_false_iff, List.all_eq_true, decide_eq_false_iff_not,
      decide_eq_false_iff_not, not_lt, and_assoc, imp_iff_not_or, or_comm]
  rw [hguard]
  constructor
  · rintro ⟨hsome, hdigits, hzero⟩
    exact toDigits_ofDigitChars hsome hdigits hzero
  · intro hspelled
    rw [← hspelled]
    refine ⟨toDigits_ne_nil _, List.all_eq_true.mp (all_isDigit_toDigits _), fun hhead => ?_⟩
    rcases Nat.eq_zero_or_pos (Nat.ofDigitChars 10 text 0) with hzero | hpositive
    · rw [hzero, toDigits_zero]
      rfl
    · exact absurd hhead (head_toDigits hpositive)

theorem prefixLength_eq_some {text : List Char} {width : Nat} {prefixLen : UInt8} :
    prefixLength text width = some prefixLen ↔
      text = (toString prefixLen.toNat).toList ∧ prefixLen.toNat ≤ width := by
  have hsize := prefixLen.toNat_lt
  rw [toString_toList]
  simp only [prefixLength]
  constructor
  · intro hlength
    split at hlength
    next => cases hlength
    next hspelling =>
      have hspelled := spelled_iff.mp (Bool.not_eq_true _ ▸ hspelling)
      split at hlength
      next hfits =>
        cases hlength
        have hvalue := UInt8.toNat_ofNat_of_lt' hfits.1
        rw [hvalue]
        exact ⟨hspelled.symm, hfits.2⟩
      next => cases hlength
  · rintro ⟨rfl, hwidth⟩
    have hvalue : Nat.ofDigitChars 10 (Nat.toDigits 10 prefixLen.toNat) 0 = prefixLen.toNat :=
      Nat.ofDigitChars_toDigits (by decide) (by decide)
    have hspelled := spelled_iff.mpr (congrArg (Nat.toDigits 10) hvalue)
    rw [if_neg (Bool.not_eq_true _ ▸ hspelled), hvalue, if_pos ⟨hsize, hwidth⟩, UInt8.ofNat_toNat]

/-! ## Texts -/

namespace Cidr

theorem parse_eq {text : String} {written lengthText : List Char} {address network : IpAddr}
    {prefixLen : UInt8} (htext : text.toList = written ++ '/' :: lengthText)
    (haddress : canonicalIpLiteral (String.ofList written) = some address)
    (hlength : prefixLength lengthText address.width = some prefixLen)
    (hnetwork : masked address prefixLen = some network) :
    parse text = some (if network ≠ address then
      .error (.hostBitsSet ⟨network, prefixLen, masked_masked hnetwork⟩)
      else .ok ⟨network, prefixLen, masked_masked hnetwork⟩) := by
  have hwritten := (canonicalIpLiteral_eq_some.mp haddress).1
  have hfree : '/' ∉ written := by
    have hdisplay := IpAddr.slash_not_mem_display address
    rwa [hwritten, String.toList_ofList] at hdisplay
  unfold parse
  rw [htext, Pieces.splitOnce_append hfree]
  simp only [haddress, hlength]
  split
  next hnone => rw [hnetwork] at hnone; cases hnone
  next result hresult =>
    rw [hnetwork, Option.some.injEq] at hresult
    subst hresult
    split <;> rfl

/-- A text is malformed, or an accepted address and a prefix that its family has room for. -/
theorem parse_cases (text : String) : parse text = some (.error .malformed) ∨
    ∃ written lengthText address prefixLen network,
      text.toList = written ++ '/' :: lengthText ∧
      canonicalIpLiteral (String.ofList written) = some address ∧
      prefixLength lengthText address.width = some prefixLen ∧
      masked address prefixLen = some network := by
  cases hsplit : Pieces.splitOnce '/' text.toList with
  | none =>
      left
      rw [parse, hsplit]
  | some pieces =>
      obtain ⟨written, lengthText⟩ := pieces
      cases haddress : canonicalIpLiteral (String.ofList written) with
      | none =>
          left
          rw [parse, hsplit]
          simp only [haddress]
      | some address =>
          cases hlength : prefixLength lengthText address.width with
          | none =>
              left
              rw [parse, hsplit]
              simp only [haddress, hlength]
          | some prefixLen =>
              have hwidth := (prefixLength_eq_some.mp hlength).2
              obtain ⟨network, hnetwork⟩ := Option.ne_none_iff_exists'.mp
                (mt masked_eq_none.mp (not_lt.mpr hwidth))
              exact Or.inr ⟨written, lengthText, address, prefixLen, network,
                Pieces.splitOnce_eq_some hsplit, haddress, hlength, hnetwork⟩

theorem fits (cidr : Cidr) : cidr.prefixLen.toNat ≤ cidr.network.width :=
  not_lt.mp (mt masked_eq_none.mpr (by rw [cidr.clear]; exact Option.some_ne_none _))

/-- The network of an address a pin may name reads back from its text. -/
theorem parse_display {cidr : Cidr} (hplain : Plain cidr.network) :
    parse cidr.display = some (.ok cidr) := by
  have htext : cidr.display.toList =
      cidr.network.display.toList ++ '/' :: (toString cidr.prefixLen.toNat).toList := by
    simp [display]
  have haddress : canonicalIpLiteral (String.ofList cidr.network.display.toList) =
      some cidr.network := by
    rw [String.ofList_toList]
    exact canonicalIpLiteral_eq_some.mpr ⟨rfl, hplain⟩
  have hlength := prefixLength_eq_some.mpr ⟨rfl, cidr.fits⟩
  rw [parse_eq htext haddress hlength cidr.clear, if_neg (not_not_intro rfl)]

/-- Membership is agreement in the first bits. -/
theorem contains_eq (cidr : Cidr) (address : IpAddr) :
    cidr.contains address = some (decide (address.isIpv4 = cidr.network.isIpv4 ∧
      ∀ index < cidr.prefixLen.toNat, address.bit index = cidr.network.bit index)) := by
  unfold contains
  split
  next hfamily =>
    have hwidth := cidr.fits
    rw [← width_eq_of_isIpv4 hfamily] at hwidth
    obtain ⟨kept, hkept⟩ := Option.ne_none_iff_exists'.mp
      (mt masked_eq_none.mp (not_lt.mpr hwidth))
    have hagree := masked_eq_network cidr.clear hfamily
    rw [hkept, Option.some.injEq] at hagree
    simp only [hkept, Option.map_some, hagree, hfamily, true_and]
  next hfamily => simp [hfamily]

/-- An address lies in the network it is masked to. -/
theorem contains_masked {address : IpAddr} {cidr : Cidr}
    (hmasked : masked address cidr.prefixLen = some cidr.network) :
    cidr.contains address = some true := by
  rw [contains, if_pos (isIpv4_masked hmasked).symm, hmasked]
  simp

/-- The text of an accepted address and prefix. -/
theorem text_eq {text : String} {written lengthText : List Char} {address : IpAddr}
    {prefixLen : UInt8} (htext : text.toList = written ++ '/' :: lengthText)
    (haddress : canonicalIpLiteral (String.ofList written) = some address)
    (hlength : prefixLength lengthText address.width = some prefixLen) :
    text = address.display ++ "/" ++ toString prefixLen.toNat := by
  rw [← String.toList_inj, htext, (prefixLength_eq_some.mp hlength).1,
    (canonicalIpLiteral_eq_some.mp haddress).1]
  simp

theorem parse_ne_none (text : String) : parse text ≠ none := by
  rcases parse_cases text with hmalformed |
    ⟨written, lengthText, address, prefixLen, network, htext, haddress, hlength, hnetwork⟩
  · rw [hmalformed]
    exact Option.some_ne_none _
  · rw [parse_eq htext haddress hlength hnetwork]
    exact Option.some_ne_none _

theorem parse_ok {text : String} {cidr : Cidr} (hparse : parse text = some (.ok cidr)) :
    cidr.display = text ∧ Plain cidr.network := by
  rcases parse_cases text with hmalformed |
    ⟨written, lengthText, address, prefixLen, network, htext, haddress, hlength, hnetwork⟩
  · rw [hmalformed] at hparse
    cases hparse
  · rw [parse_eq htext haddress hlength hnetwork] at hparse
    split at hparse
    next => cases hparse
    next hsame =>
      cases hparse
      obtain rfl := not_not.mp hsame
      exact ⟨(text_eq htext haddress hlength).symm, (canonicalIpLiteral_eq_some.mp haddress).2⟩

/-- A text refused for its host bits spells an address of the reported network. -/
theorem parse_hostBitsSet {text : String} {network : Cidr}
    (hparse : parse text = some (.error (.hostBitsSet network))) :
    Plain network.network ∧
      ∃ address, text = address.display ++ "/" ++ toString network.prefixLen.toNat ∧
        address ≠ network.network ∧ masked address network.prefixLen = some network.network := by
  rcases parse_cases text with hmalformed |
    ⟨written, lengthText, address, prefixLen, result, htext, haddress, hlength, hnetwork⟩
  · rw [hmalformed] at hparse
    cases hparse
  · rw [parse_eq htext haddress hlength hnetwork] at hparse
    split at hparse
    next hdifferent =>
      cases hparse
      exact ⟨plain_masked hnetwork (canonicalIpLiteral_eq_some.mp haddress).2, address,
        text_eq htext haddress hlength, hdifferent.symm, hnetwork⟩
    next => cases hparse

/-- No text stops the parse. An accepted text is what its network displays, and every network
parsed or reported reads back from its own text. A network contains the addresses of its family
with its first bits, among them the one written in a text refused for its host bits, and masking
keeps exactly the first bits at every prefix that fits the family. -/
theorem cidr_one_spelling :
    (∀ text, parse text ≠ none) ∧
    (∀ text cidr, parse text = some (.ok cidr) →
      cidr.display = text ∧ parse cidr.display = some (.ok cidr)) ∧
    (∀ text network, parse text = some (.error (.hostBitsSet network)) →
      parse network.display = some (.ok network) ∧
      ∃ address, text = address.display ++ "/" ++ toString network.prefixLen.toNat ∧
        IpAddr.parse address.display = some address ∧ address ≠ network.network ∧
        network.contains address = some true) ∧
    (∀ cidr address, Cidr.contains cidr address =
      some (decide (address.isIpv4 = cidr.network.isIpv4 ∧
        ∀ index < cidr.prefixLen.toNat, address.bit index = cidr.network.bit index))) ∧
    (∀ address prefixLen, prefixLen.toNat ≤ IpAddr.width address →
      ∃ kept, masked address prefixLen = some kept ∧ kept.isIpv4 = address.isIpv4 ∧
        ∀ index, kept.bit index = (address.bit index && decide (index < prefixLen.toNat))) := by
  refine ⟨parse_ne_none, fun text cidr hparse => ?_, fun text network hparse => ?_, contains_eq,
    fun address prefixLen hwidth => ?_⟩
  · obtain ⟨htext, hplain⟩ := parse_ok hparse
    exact ⟨htext, parse_display hplain⟩
  · obtain ⟨hplain, address, htext, hdifferent, hmasked⟩ := parse_hostBitsSet hparse
    exact ⟨parse_display hplain, address, htext, IpAddr.parse_display address, hdifferent,
      contains_masked hmasked⟩
  · obtain ⟨kept, hkept⟩ := Option.ne_none_iff_exists'.mp
      (mt masked_eq_none.mp (not_lt.mpr hwidth))
    exact ⟨kept, hkept, isIpv4_masked hkept, bit_masked hkept⟩

example : (parse "192.0.2.0/24").map (fun outcome => outcome.toOption.map display) =
    some (some "192.0.2.0/24") := by
  decide +kernel

end Cidr

end Plasmosome.Manifest
