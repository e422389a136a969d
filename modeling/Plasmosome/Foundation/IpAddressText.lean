import Plasmosome.Foundation.Decimal
import Plasmosome.Foundation.IpAddress

/-!
# Addresses read back

An address that is displayed reads back as itself: each number of it is read up to
the separator after it, and the longest run of zero groups is put back.
-/

namespace Foundation

namespace IpAddress

/-! ## Numbers -/

theorem toDigit_digitChar {radix digit : Nat} (hradix : radix ≤ 16) (hdigit : digit < radix) :
    toDigit radix digit.digitChar = some digit := by
  interval_cases radix <;> interval_cases digit <;> decide

theorem exists_digit {radix number : Nat} (hradix : 2 ≤ radix) {char : Char}
    (hchar : char ∈ Nat.toDigits radix number) : ∃ digit < radix, char = digit.digitChar := by
  induction number using Nat.strong_induction_on with
  | _ number ih =>
      by_cases hsmall : number < radix
      · rw [Nat.toDigits_of_lt_base hsmall, List.mem_singleton] at hchar
        exact ⟨number, hsmall, hchar⟩
      · rw [Nat.toDigits_of_base_le (by omega) (by omega)] at hchar
        rcases List.mem_append.mp hchar with hchar | hchar
        · exact ih (number / radix) (Nat.div_lt_self (by omega) (by omega)) hchar
        · exact ⟨number % radix, Nat.mod_lt _ (by omega), List.mem_singleton.mp hchar⟩

/-- The digits of a number are no separators. -/
theorem digits_ne {radix number : Nat} (hradix : 2 ≤ radix) (hmost : radix ≤ 16) {char : Char}
    (hchar : char ∈ Nat.toDigits radix number) : char ≠ '.' ∧ char ≠ ':' ∧ char ≠ '/' := by
  obtain ⟨digit, hdigit, rfl⟩ := exists_digit hradix hchar
  have hdigit : digit < 16 := by omega
  interval_cases digit <;> decide

/-- Nothing that follows a number is read as one more of its digits. -/
def Stops (radix : Nat) (rest : List Char) : Prop :=
  ∀ char, rest.head? = some char → toDigit radix char = none

theorem stops_nil (radix : Nat) : Stops radix [] := by
  intro char hchar
  cases hchar

theorem stops_colon {radix : Nat} (hradix : radix ≤ 16) (rest : List Char) :
    Stops radix (':' :: rest) := by
  intro char hchar
  cases hchar
  interval_cases radix <;> decide

theorem stops_dot {radix : Nat} (hradix : radix ≤ 16) (rest : List Char) :
    Stops radix ('.' :: rest) := by
  intro char hchar
  cases hchar
  interval_cases radix <;> decide

theorem readDigits_stops {radix : Nat} {rest : List Char} (hrest : Stops radix rest) :
    readDigits radix rest = ([], rest) := by
  cases rest with
  | nil => rfl
  | cons char rest => simp [readDigits, hrest char rfl]

theorem readDigits_append {radix : Nat} {text rest : List Char} {digits : List Nat}
    (htext : text.mapM (toDigit radix) = some digits) (hrest : Stops radix rest) :
    readDigits radix (text ++ rest) = (digits, rest) := by
  induction text generalizing digits with
  | nil =>
      cases htext
      exact readDigits_stops hrest
  | cons char text ih =>
      rw [List.mapM_cons] at htext
      obtain ⟨digit, hdigit, htext⟩ := Option.bind_eq_some_iff.mp htext
      obtain ⟨others, hothers, hdigits⟩ := Option.bind_eq_some_iff.mp htext
      cases hdigits
      simp [readDigits, hdigit, ih hothers]

/-- The digits of a number are read as that number. -/
theorem mapM_toDigits {radix : Nat} (hradix : 2 ≤ radix) (hmost : radix ≤ 16) (number : Nat) :
    ∃ digits, (Nat.toDigits radix number).mapM (toDigit radix) = some digits ∧
      digits.length = (Nat.toDigits radix number).length ∧
      digits.foldl (fun value digit => value * radix + digit) 0 = number := by
  induction number using Nat.strong_induction_on with
  | _ number ih =>
      by_cases hsmall : number < radix
      · refine ⟨[number], ?_, ?_, ?_⟩
        · rw [Nat.toDigits_of_lt_base hsmall]
          simp [toDigit_digitChar hmost hsmall]
        · rw [Nat.toDigits_of_lt_base hsmall]
          rfl
        · simp
      · have hlast : number % radix < radix := Nat.mod_lt _ (by omega)
        obtain ⟨digits, hdigits, hlength, hvalue⟩ :=
          ih (number / radix) (Nat.div_lt_self (by omega) (by omega))
        refine ⟨digits ++ [number % radix], ?_, ?_, ?_⟩
        · rw [Nat.toDigits_of_base_le (by omega) (by omega), List.mapM_append, hdigits]
          simp [toDigit_digitChar hmost hlast]
        · rw [Nat.toDigits_of_base_le (by omega) (by omega), List.length_append, List.length_append,
            hlength]
          rfl
        · rw [List.foldl_append, hvalue]
          simp only [List.foldl_cons, List.foldl_nil]
          rw [Nat.mul_comm]
          exact Nat.div_add_mod number radix

theorem readNumber_toDigits {radix maxDigits bound number : Nat} {allowZeroPrefix : Bool}
    (hradix : 2 ≤ radix) (hmost : radix ≤ 16)
    (hlength : (Nat.toDigits radix number).length ≤ maxDigits) (hbound : number < bound)
    (hzero : allowZeroPrefix = true ∨ radix = 10) {rest : List Char} (hrest : Stops radix rest) :
    readNumber radix maxDigits allowZeroPrefix bound (Nat.toDigits radix number ++ rest) =
      some (number, rest) := by
  obtain ⟨digits, hdigits, hcount, hvalue⟩ := mapM_toDigits hradix hmost number
  have hread := readDigits_append hdigits hrest
  have hsome : digits ≠ [] := by
    rintro rfl
    have hpositive := Nat.length_toDigits_pos (b := radix) (n := number)
    rw [← hcount] at hpositive
    cases hpositive
  have hcanonical : ¬((!allowZeroPrefix) = true ∧
      ((Nat.toDigits radix number ++ rest).head? = some '0' ∧ 1 < digits.length)) := by
    rintro ⟨hforbidden, hhead, hmany⟩
    rcases hzero with hallowed | rfl
    · simp [hallowed] at hforbidden
    · rcases Nat.eq_zero_or_pos number with rfl | hpositive
      · rw [hcount, Nat.toDigits_zero] at hmany
        exact absurd hmany (by decide)
      · have hfirst := head_toDigits hpositive
        obtain ⟨first, others, htext⟩ :=
          List.exists_cons_of_ne_nil (Nat.toDigits_ne_nil (n := number) (b := 10))
        rw [htext, List.cons_append, List.head?_cons] at hhead
        rw [htext, List.head?_cons] at hfirst
        exact hfirst hhead
  unfold readNumber
  simp only [hread]
  rw [if_neg (not_or.mpr ⟨hsome, by rw [hcount]; exact Nat.not_lt.mpr hlength⟩), if_neg hcanonical,
    hvalue, if_pos hbound]

/-! ## IPv4 addresses -/

def octetText (octet : UInt8) : List Char := Nat.toDigits 10 octet.toNat

theorem readNumber_octet (octet : UInt8) {rest : List Char} (hrest : Stops 10 rest) :
    readNumber 10 3 false 256 (octetText octet ++ rest) = some (octet.toNat, rest) := by
  have hbound : octet.toNat < 256 := octet.toNat_lt
  refine readNumber_toDigits (by decide) (by decide) ?_ hbound (Or.inr rfl) hrest
  exact (Nat.length_toDigits_le_iff (by decide) (by decide)).mpr (by omega)

theorem readOctet_zero (octet : UInt8) {rest : List Char} (hrest : Stops 10 rest) :
    readOctet 0 (octetText octet ++ rest) = some (octet, rest) := by
  simp [readOctet, readSeparator, readNumber_octet octet hrest]

theorem readOctet_succ (index : Nat) (octet : UInt8) {rest : List Char} (hrest : Stops 10 rest) :
    readOctet (index + 1) ('.' :: octetText octet ++ rest) = some (octet, rest) := by
  simp [readOctet, readSeparator, readGivenChar, readNumber_octet octet hrest]

theorem display_ipv4 (address : Ipv4Addr) : address.display.toList =
    octetText address.a ++ '.' :: octetText address.b ++ '.' :: octetText address.c ++
      '.' :: octetText address.d := by
  simp [Ipv4Addr.display, octetText]

theorem readIpv4Addr_display (address : Ipv4Addr) {rest : List Char} (hrest : Stops 10 rest) :
    readIpv4Addr (address.display.toList ++ rest) = some (address, rest) := by
  obtain ⟨a, b, c, d⟩ := address
  rw [display_ipv4]
  simp only [List.append_assoc, List.cons_append]
  unfold readIpv4Addr
  simp only [bind, Option.bind, pure, readOctet_zero a (stops_dot (by decide) _)]
  have hb :=
    readOctet_succ 0 b (stops_dot (by decide) (octetText c ++ '.' :: (octetText d ++ rest)))
  have hc := readOctet_succ 1 c (stops_dot (by decide) (octetText d ++ rest))
  have hd := readOctet_succ 2 d hrest
  simp only [Nat.zero_add, Nat.reduceAdd, List.cons_append] at hb hc hd
  simp only [hb, hc, hd]

/-! ## Groups -/

def groupText (group : UInt16) : List Char := Nat.toDigits 16 group.toNat

/-- The groups, each after a colon. -/
def ledGroups (groups : List UInt16) : List Char :=
  groups.flatMap fun group => ':' :: groupText group

theorem readNumber_group (group : UInt16) {rest : List Char} (hrest : Stops 16 rest) :
    readNumber 16 4 true 65536 (groupText group ++ rest) = some (group.toNat, rest) := by
  have hbound : group.toNat < 65536 := group.toNat_lt
  refine readNumber_toDigits (by decide) (by decide) ?_ hbound (Or.inl rfl) hrest
  exact (Nat.length_toDigits_le_iff (by decide) (by decide)).mpr (by omega)

/-- What follows a group: the end, or a colon. -/
def Follows (rest : List Char) : Prop := rest = [] ∨ ∃ others, rest = ':' :: others

theorem Follows.stops {radix : Nat} (hradix : radix ≤ 16) {rest : List Char}
    (hrest : Follows rest) : Stops radix rest := by
  rcases hrest with rfl | ⟨others, rfl⟩
  · exact stops_nil radix
  · exact stops_colon hradix others

theorem follows_ledGroups {groups : List UInt16} {rest : List Char} (hrest : Follows rest) :
    Follows (ledGroups groups ++ rest) := by
  cases groups with
  | nil => exact hrest
  | cons group others =>
      exact Or.inr ⟨groupText group ++ (ledGroups others ++ rest), by simp [ledGroups]⟩

theorem readDigits_head {text rest : List Char} (htext : ∀ char ∈ text, char ≠ '.')
    (hrest : Follows rest) : (readDigits 10 (text ++ rest)).2.head? ≠ some '.' := by
  induction text with
  | nil =>
      rw [List.nil_append, readDigits_stops (hrest.stops (by decide))]
      rcases hrest with rfl | ⟨others, rfl⟩
      · simp
      · simp
  | cons char text ih =>
      rw [List.cons_append, readDigits]
      split
      next => exact ih fun other hother => htext other (List.mem_cons_of_mem _ hother)
      next =>
        intro hhead
        exact htext char List.mem_cons_self (Option.some.inj hhead)

/-- A text whose first number no dot follows is no IPv4 address. -/
theorem readIpv4Addr_none {text rest : List Char} (htext : ∀ char ∈ text, char ≠ '.')
    (hrest : Follows rest) : readIpv4Addr (text ++ rest) = none := by
  have hhead := readDigits_head htext hrest
  unfold readIpv4Addr
  cases hread : readOctet 0 (text ++ rest) with
  | none => rfl
  | some octet =>
      obtain ⟨octet, after⟩ := octet
      have hafter : after = (readDigits 10 (text ++ rest)).2 := by
        simp only [readOctet, readSeparator, lt_irrefl, if_false, Option.map_eq_some_iff] at hread
        obtain ⟨⟨value, others⟩, hnumber, hpair⟩ := hread
        cases hpair
        unfold readNumber at hnumber
        simp only at hnumber
        split at hnumber
        next => cases hnumber
        next =>
          split at hnumber
          next => cases hnumber
          next =>
            split at hnumber
            next =>
              cases hnumber
              rfl
            next => cases hnumber
      have hnone : readOctet 1 after = none := by
        rw [← hafter] at hhead
        cases after with
        | nil => rfl
        | cons char others =>
            have hchar : char ≠ '.' := fun hsame => hhead (congrArg some hsame)
            simp [readOctet, readSeparator, readGivenChar, hchar]
      simp [hnone]

theorem groupText_ne (group : UInt16) : ∀ char ∈ groupText group, char ≠ '.' :=
  fun _ hchar => (digits_ne (by decide) (by decide) hchar).1

theorem readIpv4Addr_colon (rest : List Char) : readIpv4Addr (':' :: rest) = none :=
  @readIpv4Addr_none [] (':' :: rest) (fun _ hchar => by cases hchar) (Or.inr ⟨rest, rfl⟩)

/-- What ends a row of groups: the end of the text, or two colons. -/
def Ends (rest : List Char) : Prop := rest = [] ∨ ∃ others, rest = ':' :: ':' :: others

theorem Ends.follows {rest : List Char} (hrest : Ends rest) : Follows rest := by
  rcases hrest with rfl | ⟨others, rfl⟩
  · exact Or.inl rfl
  · exact Or.inr ⟨':' :: others, rfl⟩

theorem readNumber_colon {maxDigits bound : Nat} {allowZeroPrefix : Bool} (rest : List Char) :
    readNumber 16 maxDigits allowZeroPrefix bound (':' :: rest) = none := by
  have hstops : Stops 16 (':' :: rest) := stops_colon (by decide) rest
  unfold readNumber
  simp [readDigits_stops hstops]

theorem readGroups_ends {rest : List Char} (hrest : Ends rest) (limit index : Nat) :
    readGroups limit (index + 1) rest = (([], false), rest) := by
  cases limit with
  | zero => rfl
  | succ limit =>
      rcases hrest with rfl | ⟨others, rfl⟩
      · simp [readGroups, readSeparator, readGivenChar]
      · simp [readGroups, readSeparator, readGivenChar, readIpv4Addr_colon, readNumber_colon]

theorem readGroups_led {groups : List UInt16} {limit : Nat} (hlimit : groups.length ≤ limit)
    (index : Nat) {rest : List Char} (hrest : Ends rest) :
    readGroups limit (index + 1) (ledGroups groups ++ rest) = ((groups, false), rest) := by
  induction groups generalizing limit index with
  | nil => exact readGroups_ends hrest limit index
  | cons group others ih =>
      cases limit with
      | zero => simp at hlimit
      | succ limit =>
          have hfollows := @follows_ledGroups others rest hrest.follows
          have htext : ledGroups (group :: others) ++ rest =
              ':' :: (groupText group ++ (ledGroups others ++ rest)) := by
            simp [ledGroups]
          have hnone := readIpv4Addr_none (groupText_ne group) hfollows
          have hgroup := readNumber_group group (hfollows.stops (by decide))
          have hothers := @ih limit (by simpa using hlimit) (index + 1)
          rw [htext, readGroups]
          simp only [readSeparator, readGivenChar, Nat.succ_pos, if_true, Option.bind_some, hnone,
            ite_self, hgroup, hothers, UInt16.ofNat_toNat]

/-- A row of groups without a colon before it. -/
def groupsText : List UInt16 → List Char
  | [] => []
  | group :: others => groupText group ++ ledGroups others

theorem readGroups_text {groups : List UInt16} {limit : Nat} (hlimit : groups.length ≤ limit)
    {rest : List Char} (hrest : Ends rest) :
    readGroups limit 0 (groupsText groups ++ rest) = ((groups, false), rest) := by
  cases groups with
  | nil =>
      cases limit with
      | zero => rfl
      | succ limit =>
          rcases hrest with rfl | ⟨others, rfl⟩
          · simp [groupsText, readGroups, readSeparator, readIpv4Addr, readOctet, readNumber,
              readDigits]
          · simp [groupsText, readGroups, readSeparator, readIpv4Addr_colon, readNumber_colon]
  | cons group others =>
      cases limit with
      | zero => simp at hlimit
      | succ limit =>
          have hfollows := @follows_ledGroups others rest hrest.follows
          have htext : groupsText (group :: others) ++ rest =
              groupText group ++ (ledGroups others ++ rest) := by
            simp [groupsText]
          have hnone := readIpv4Addr_none (groupText_ne group) hfollows
          have hgroup := readNumber_group group (hfollows.stops (by decide))
          have hothers := @readGroups_led others limit (by simpa using hlimit) 0 rest hrest
          rw [htext, readGroups]
          simp only [readSeparator, lt_irrefl, if_false, hnone, ite_self, hgroup, Nat.zero_add,
            hothers, UInt16.ofNat_toNat]

theorem displaySegments_toList (segments : List UInt16) :
    (Ipv6Addr.displaySegments segments).toList = groupsText segments := by
  rw [Ipv6Addr.displaySegments, String.toList_intercalate, List.map_map]
  induction segments with
  | nil => rfl
  | cons group others ih =>
      cases others with
      | nil => simp [groupsText, ledGroups, groupText, List.intercalate]
      | cons next rest =>
          rw [List.map_cons, List.map_cons, List.intercalate_cons_cons, ← List.map_cons, ih]
          simp [groupsText, ledGroups, groupText]

theorem slash_not_mem_display_ipv4 (address : Ipv4Addr) : '/' ∉ address.display.toList := by
  have hoctet : ∀ octet : UInt8, '/' ∉ octetText octet :=
    fun _ hchar => (digits_ne (by decide) (by decide) hchar).2.2 rfl
  rw [display_ipv4]
  simp [hoctet]

theorem slash_not_mem_displaySegments (segments : List UInt16) :
    '/' ∉ (Ipv6Addr.displaySegments segments).toList := by
  have hgroup : ∀ group : UInt16, '/' ∉ groupText group :=
    fun _ hchar => (digits_ne (by decide) (by decide) hchar).2.2 rfl
  have hled : ∀ groups, '/' ∉ ledGroups groups := by
    intro groups
    simp [ledGroups, hgroup]
  rw [displaySegments_toList]
  cases segments with
  | nil => exact List.not_mem_nil
  | cons group others => simp [groupsText, hgroup, hled]

/-! ## The run of zero groups -/

/-- A span of a row that holds zeros only. -/
def ZeroSpan (row : List UInt16) (span : Ipv6Addr.Span) : Prop :=
  (row.drop span.start).take span.len = List.replicate span.len 0

theorem ZeroSpan.append {row : List UInt16} {span : Ipv6Addr.Span} (hspan : ZeroSpan row span)
    (more : List UInt16) : ZeroSpan (row ++ more) span := by
  unfold ZeroSpan at hspan ⊢
  have hlength := congrArg List.length hspan
  rw [List.length_take, List.length_drop, List.length_replicate] at hlength
  rcases Nat.eq_zero_or_pos span.len with hzero | hpositive
  · simp [hzero]
  · rw [List.drop_append_of_le_length (by omega), List.take_append_of_le_length, hspan]
    rw [List.length_drop]
    omega

theorem zeroSpan_empty (row : List UInt16) (start : Nat) : ZeroSpan row ⟨start, 0⟩ := by
  simp [ZeroSpan]

/-- A zero lengthens the run that ends before it. -/
theorem zeroSpan_extend {row : List UInt16} {span : Ipv6Addr.Span} (hspan : ZeroSpan row span)
    (hend : span.len = 0 ∨ span.start + span.len = row.length) :
    ZeroSpan (row ++ [0])
      ⟨if span.len = 0 then row.length else span.start, span.len + 1⟩ := by
  unfold ZeroSpan at hspan ⊢
  simp only
  split
  next hempty =>
    rw [hempty, List.drop_append_of_le_length (Nat.le_refl _), List.drop_length]
    rfl
  next hsome =>
    have hend := hend.resolve_left hsome
    have hlength : (row.drop span.start).length = span.len := by
      rw [List.length_drop]
      omega
    have hall : row.drop span.start = List.replicate span.len 0 := by
      rw [← hspan, ← hlength, List.take_length]
    rw [List.drop_append_of_le_length (by omega), hall, List.replicate_succ',
      List.take_of_length_le (by simp)]

/-- The run that is found holds zeros only. -/
theorem longestZeroes_zero {before segments : List UInt16} {current longest : Ipv6Addr.Span}
    (hcurrent : ZeroSpan before current)
    (hend : current.len = 0 ∨ current.start + current.len = before.length)
    (hlongest : ZeroSpan before longest) :
    ZeroSpan (before ++ segments)
      (Ipv6Addr.longestZeroes segments before.length current longest) := by
  induction segments generalizing before current longest with
  | nil =>
      rw [List.append_nil]
      exact hlongest
  | cons segment rest ih =>
      have hrow : before ++ segment :: rest = (before ++ [segment]) ++ rest := by simp
      have hindex : before.length + 1 = (before ++ [segment]).length := by simp
      rw [Ipv6Addr.longestZeroes, hrow, hindex]
      split
      next hzero =>
        subst hzero
        have hextended := zeroSpan_extend hcurrent hend
        refine ih hextended (Or.inr ?_) ?_
        · simp only [List.length_append, List.length_singleton]
          split
          next hempty => omega
          next hsome => omega
        · by_cases hlonger : longest.len < current.len + 1
          · rw [if_pos hlonger]
            exact hextended
          · rw [if_neg hlonger]
            exact hlongest.append [0]
      next => exact ih (zeroSpan_empty _ 0) (Or.inl rfl) (hlongest.append [segment])

/-- A row is what stands before a span of zeros, the zeros, and what stands after. -/
theorem ZeroSpan.split {row : List UInt16} {span : Ipv6Addr.Span} (hspan : ZeroSpan row span) :
    row.take span.start ++ List.replicate span.len 0 ++ row.drop (span.start + span.len) = row := by
  rw [← hspan, List.append_assoc, ← List.drop_drop, List.take_append_drop, List.take_append_drop]

theorem ofGroups_segments (address : Ipv6Addr) : ofGroups address.segments.toList = address := by
  obtain ⟨segments⟩ := address
  unfold ofGroups
  congr 1
  ext index hindex
  simp [List.getD_eq_getElem?_getD]

/-! ## IPv6 addresses -/

section Ipv6

variable {address : Ipv6Addr}

/-- An address whose text has no two colons. -/
theorem readIpv6Addr_whole : readIpv6Addr (groupsText address.segments.toList) =
    some (address, []) := by
  have hread := @readGroups_text address.segments.toList 8 (by simp) [] (Or.inl rfl)
  rw [List.append_nil] at hread
  unfold readIpv6Addr
  simp [hread, ofGroups_segments]

/-- An address whose text has two colons for a run of zeros. -/
theorem readIpv6Addr_compressed {span : Ipv6Addr.Span}
    (hspan : ZeroSpan address.segments.toList span)
    (hlong : 1 < span.len) :
    readIpv6Addr (groupsText (address.segments.toList.take span.start) ++
      ':' :: ':' :: groupsText (address.segments.toList.drop (span.start + span.len))) =
        some (address, []) := by
  have hsplit := hspan.split
  have hlength := congrArg List.length hsplit
  have height : address.segments.toList.length = 8 := by simp
  generalize address.segments.toList.take span.start = head at hsplit hlength ⊢
  generalize address.segments.toList.drop (span.start + span.len) = tail at hsplit hlength ⊢
  simp only [List.length_append, List.length_replicate, height] at hlength
  have hhead := @readGroups_text head 8 (by omega) (':' :: ':' :: groupsText tail)
    (Or.inr ⟨_, rfl⟩)
  have htail := @readGroups_text tail (8 - (head.length + 1)) (by omega) [] (Or.inl rfl)
  rw [List.append_nil] at htail
  have hzeroes : 8 - head.length - tail.length = span.len := by omega
  have hshort : head.length ≠ 8 := by omega
  unfold readIpv6Addr
  simp only [hhead, hshort, if_false, Bool.false_eq_true, readGivenChar, if_true, bind,
    Option.bind, htail, hzeroes, hsplit, ofGroups_segments]
  rfl

/-- The bytes of an address that a mapped one carries. -/
theorem toIpv4Mapped_eq_some {ipv4 : Ipv4Addr} (hmapped : address.toIpv4Mapped = some ipv4) :
    address.segments.toList = [0, 0, 0, 0, 0, 65535, fromBeBytes ipv4.a ipv4.b,
      fromBeBytes ipv4.c ipv4.d] := by
  have hbytes : ∀ segment : UInt16,
      fromBeBytes (segment >>> 8).toUInt8 segment.toUInt8 = segment := by
    intro segment
    have hsegment := segment.toNat_lt
    unfold fromBeBytes
    have hvalue : (segment >>> 8).toUInt8.toNat * 256 + segment.toUInt8.toNat = segment.toNat := by
      simp only [UInt16.toNat_toUInt8, UInt16.toNat_shiftRight, UInt16.reduceToNat, Nat.reduceMod,
        Nat.shiftRight_eq_div_pow, Nat.reducePow]
      omega
    rw [hvalue, UInt16.ofNat_toNat]
  unfold Ipv6Addr.toIpv4Mapped at hmapped
  split at hmapped
  next high low hsegments =>
    cases hmapped
    rw [hsegments, hbytes, hbytes]
  next => cases hmapped

theorem readIpv6Addr_mapped {ipv4 : Ipv4Addr} (hmapped : address.toIpv4Mapped = some ipv4) :
    readIpv6Addr (':' :: ':' :: 'f' :: 'f' :: 'f' :: 'f' :: ':' :: ipv4.display.toList) =
      some (address, []) := by
  have hhead := @readGroups_text [] 8 (by simp)
    (':' :: ':' :: 'f' :: 'f' :: 'f' :: 'f' :: ':' :: ipv4.display.toList) (Or.inr ⟨_, rfl⟩)
  have hgroup : groupText 65535 = ['f', 'f', 'f', 'f'] := by decide
  have hfollows : Follows (':' :: ipv4.display.toList) := Or.inr ⟨_, rfl⟩
  have hnone := readIpv4Addr_none (groupText_ne 65535) hfollows
  have hnumber := readNumber_group 65535 (hfollows.stops (by decide))
  have hipv4 := @readIpv4Addr_display ipv4 [] (stops_nil 10)
  rw [hgroup] at hnone hnumber
  rw [List.append_nil] at hipv4
  simp only [List.cons_append, List.nil_append] at hnone hnumber
  have htail : readGroups 7 0 ('f' :: 'f' :: 'f' :: 'f' :: ':' :: ipv4.display.toList) =
      (([65535, fromBeBytes ipv4.a ipv4.b, fromBeBytes ipv4.c ipv4.d], true), []) := by
    rw [readGroups]
    simp only [readSeparator, lt_irrefl, if_false, hnone, ite_self, hnumber, Nat.zero_add]
    rw [readGroups]
    simp [readSeparator, readGivenChar, hipv4]
  simp only [groupsText, List.nil_append] at hhead
  have haddress := ofGroups_segments address
  rw [toIpv4Mapped_eq_some hmapped] at haddress
  unfold readIpv6Addr
  simp only [hhead, List.length_nil, Bool.false_eq_true, if_false, readGivenChar, if_true, bind,
    Option.bind, htail, Nat.zero_add, Nat.reduceSub, Nat.reduceEqDiff]
  exact congrArg (fun address => some (address, [])) haddress

/-- An address reads back whole, and no IPv4 address is read from its text. -/
theorem readIpv6Addr_display :
    readIpv4Addr address.display.toList = none ∧
      readIpv6Addr address.display.toList = some (address, []) := by
  unfold Ipv6Addr.display
  split
  next ipv4 hmapped =>
    have htext : ("::ffff:" ++ ipv4.display).toList =
        ':' :: ':' :: 'f' :: 'f' :: 'f' :: 'f' :: ':' :: ipv4.display.toList := by
      simp
    rw [htext]
    exact ⟨readIpv4Addr_colon _, readIpv6Addr_mapped hmapped⟩
  next hplain =>
    have hspan := @longestZeroes_zero [] address.segments.toList ⟨0, 0⟩ ⟨0, 0⟩
      (zeroSpan_empty _ 0) (Or.inl rfl) (zeroSpan_empty _ 0)
    rw [List.nil_append, List.length_nil] at hspan
    have hfirst : ∀ (groups : List UInt16) (rest : List Char), Follows rest → groups ≠ [] →
        readIpv4Addr (groupsText groups ++ rest) = none := by
      intro groups rest hrest hsome
      obtain ⟨group, others, rfl⟩ := List.exists_cons_of_ne_nil hsome
      rw [groupsText, List.append_assoc]
      exact readIpv4Addr_none (groupText_ne group) (follows_ledGroups hrest)
    simp only
    split
    next hlong =>
      have htext : (Ipv6Addr.displaySegments (address.segments.toList.take
          (Ipv6Addr.longestZeroes address.segments.toList 0 ⟨0, 0⟩ ⟨0, 0⟩).start) ++ "::" ++
          Ipv6Addr.displaySegments (address.segments.toList.drop
            ((Ipv6Addr.longestZeroes address.segments.toList 0 ⟨0, 0⟩ ⟨0, 0⟩).start +
              (Ipv6Addr.longestZeroes address.segments.toList 0 ⟨0, 0⟩ ⟨0, 0⟩).len))).toList =
          groupsText (address.segments.toList.take
            (Ipv6Addr.longestZeroes address.segments.toList 0 ⟨0, 0⟩ ⟨0, 0⟩).start) ++
          ':' :: ':' :: groupsText (address.segments.toList.drop
            ((Ipv6Addr.longestZeroes address.segments.toList 0 ⟨0, 0⟩ ⟨0, 0⟩).start +
              (Ipv6Addr.longestZeroes address.segments.toList 0 ⟨0, 0⟩ ⟨0, 0⟩).len)) := by
        simp [displaySegments_toList]
      rw [htext]
      refine ⟨?_, readIpv6Addr_compressed hspan hlong⟩
      by_cases hsome : address.segments.toList.take
          (Ipv6Addr.longestZeroes address.segments.toList 0 ⟨0, 0⟩ ⟨0, 0⟩).start = []
      · rw [hsome]
        exact readIpv4Addr_colon _
      · exact hfirst _ _ (Or.inr ⟨_, rfl⟩) hsome
    next =>
      rw [displaySegments_toList]
      refine ⟨?_, readIpv6Addr_whole⟩
      have hnone := hfirst address.segments.toList [] (Or.inl rfl) (by simp)
      rwa [List.append_nil] at hnone

end Ipv6

end IpAddress

open IpAddress

theorem IpAddr.slash_not_mem_display (address : IpAddr) : '/' ∉ address.display.toList := by
  cases address with
  | v4 address => exact slash_not_mem_display_ipv4 address
  | v6 address =>
      rw [IpAddr.display]
      unfold Ipv6Addr.display
      split
      next ipv4 _ =>
        rw [String.toList_append]
        simp [slash_not_mem_display_ipv4]
      next =>
        dsimp only
        split <;> simp [slash_not_mem_displaySegments]

/-- Every address reads back from its text. -/
theorem IpAddr.parse_display (address : IpAddr) : IpAddr.parse address.display = some address := by
  unfold IpAddr.parse
  cases address with
  | v4 address =>
      have hread := @readIpv4Addr_display address [] (stops_nil 10)
      rw [List.append_nil] at hread
      simp only [IpAddr.display, hread]
  | v6 address =>
      obtain ⟨hnone, hread⟩ := @readIpv6Addr_display address
      simp only [IpAddr.display, hnone, hread, Option.map_some]

end Foundation
