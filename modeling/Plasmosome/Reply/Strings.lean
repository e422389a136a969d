import Plasmosome.Reply.Scanner

/-!
# Scanning strings, keys and literals

A string is read one character or escape at a time until its closing quote. An
escape of a high surrogate must be followed by that of a low one.
-/

namespace Plasmosome.Reply

open Foundation Foundation.Cursor

namespace Scanner

/-! ## Escapes -/

/-- Reads hexadecimal digits onto a value; a character that is none is the escape's fault. -/
def hexDigits (escape : Nat) : Nat → Nat → Scanner → Except ScanError (Nat × Scanner)
  | 0, value, scanner => .ok (value, scanner)
  | count + 1, value, scanner =>
      match scanner.peek with
      | none => .error (scanner.error .end)
      | some char =>
          match hexValue? char with
          | none => .error ⟨escape, .escape⟩
          | some digit => hexDigits escape count (value * 16 + digit) scanner.advance

def hex (scanner : Scanner) (escape : Nat) : Except ScanError (Nat × Scanner) :=
  hexDigits escape 4 0 scanner

def charFromU32 (code : Nat) : Option Char :=
  if code.isValidChar then some (Char.ofNat code) else none

def isHighSurrogate (code : Nat) : Bool := 0xd800 ≤ code && code ≤ 0xdbff

def isLowSurrogate (code : Nat) : Bool := 0xdc00 ≤ code && code ≤ 0xdfff

/-- The character of a code point; only half of a surrogate pair has none. -/
def scalarValue (start code : Nat) (scanner : Scanner) : Except ScanError (Char × Scanner) :=
  match charFromU32 code with
  | some char => .ok (char, scanner)
  | none => .error ⟨start, .loneSurrogate⟩

/-- The code unit after `\u`, with the low surrogate a high one must be followed by. -/
def unicode (scanner : Scanner) (start : Nat) : Except ScanError (Char × Scanner) := do
  let (first, afterFirst) ← scanner.hex start
  if isHighSurrogate first then
    match (afterFirst.eat '\\').bind fun next => next.eat 'u' with
    | none => .error ⟨start, .loneSurrogate⟩
    | some next => do
        let (second, afterSecond) ← hex next afterFirst.offset
        if isLowSurrogate second then
          scalarValue start (0x10000 + ((first - 0xd800) * 0x400) + (second - 0xdc00)) afterSecond
        else .error ⟨start, .loneSurrogate⟩
  else scalarValue start first afterFirst

def escape (scanner : Scanner) : Except ScanError (Char × Scanner) :=
  match scanner.advance.peek with
  | none => .error (error scanner.advance .end)
  | some mark =>
      match simpleEscape? mark with
      | some char => .ok (char, scanner.advance.advance)
      | none =>
          if mark = 'u' then unicode scanner.advance.advance scanner.offset
          else .error ⟨scanner.offset, .escape⟩

theorem charFromU32_eq_some {code : Nat} {char : Char} :
    charFromU32 code = some char ↔ char.toNat = code := by
  rw [charFromU32]
  constructor
  · intro hcode
    split at hcode
    next hvalid =>
      cases Option.some.inj hcode
      rw [Char.toNat_ofNat, if_pos hvalid]
    next => cases hcode
  · intro hcode
    subst hcode
    have hvalid : char.toNat.isValidChar := char.valid
    rw [if_pos hvalid, Char.ofNat_toNat]

/-- A code is read as the character that has it. -/
theorem scalarValue_eq_ok {start code : Nat} {scanner stop : Scanner} {char : Char} :
    scalarValue start code scanner = .ok (char, stop) ↔ char.toNat = code ∧ scanner = stop := by
  rw [scalarValue, ← charFromU32_eq_some]
  cases charFromU32 code with
  | none => simp
  | some decoded => simp

theorem hexDigits_succ {escape count value : Nat} {scanner : Scanner} {read : Nat × Scanner} :
    hexDigits escape (count + 1) value scanner = .ok read ↔
      ∃ char digit, scanner.peek = some char ∧ hexValue? char = some digit ∧
        hexDigits escape count (value * 16 + digit) scanner.advance = .ok read := by
  rw [hexDigits]
  cases hpeek : scanner.peek with
  | none => simp
  | some char =>
      cases hdigit : hexValue? char with
      | none => simp [hdigit]
      | some digit => simp [hdigit]

/-- Four digits that were read spell their number. -/
theorem hex_took {scanner stop : Scanner} {escape value : Nat}
    (hok : scanner.hex escape = .ok (value, stop)) :
    ∃ text, HexText text value ∧ Took scanner text stop := by
  obtain ⟨first, a, hfirst, ha, hok⟩ := hexDigits_succ.mp hok
  obtain ⟨second, b, hsecond, hb, hok⟩ := hexDigits_succ.mp hok
  obtain ⟨third, c, hthird, hc, hok⟩ := hexDigits_succ.mp hok
  obtain ⟨fourth, d, hfourth, hd, hok⟩ := hexDigits_succ.mp hok
  cases hok
  refine ⟨[first, second, third, fourth], ?_, ?_⟩
  · rw [Nat.zero_mul, Nat.zero_add]
    exact .four ha hb hc hd
  · exact (took_advance hfirst).trans ((took_advance hsecond).trans
      ((took_advance hthird).trans (took_advance hfourth)))

/-- Four digits that spell a number are read as it. -/
theorem hex_of_took {scanner stop : Scanner} {escape value : Nat} {text : List Char}
    (htext : HexText text value) (htook : Took scanner text stop) :
    scanner.hex escape = .ok (value, stop) := by
  cases htext with
  | four ha hb hc hd =>
      have hsecond := htook.advance_cons
      have hthird := hsecond.advance_cons
      have hfourth := hthird.advance_cons
      refine hexDigits_succ.mpr ⟨_, _, htook.peek_cons, ha, ?_⟩
      refine hexDigits_succ.mpr ⟨_, _, hsecond.peek_cons, hb, ?_⟩
      refine hexDigits_succ.mpr ⟨_, _, hthird.peek_cons, hc, ?_⟩
      refine hexDigits_succ.mpr ⟨_, _, hfourth.peek_cons, hd, ?_⟩
      rw [hexDigits, (took_advance hfourth.peek_cons).unique hfourth, Nat.zero_mul, Nat.zero_add]

theorem isHighSurrogate_iff {code : Nat} :
    isHighSurrogate code = true ↔ 0xd800 ≤ code ∧ code ≤ 0xdbff := by
  simp [isHighSurrogate]

theorem isLowSurrogate_iff {code : Nat} :
    isLowSurrogate code = true ↔ 0xdc00 ≤ code ∧ code ≤ 0xdfff := by
  simp [isLowSurrogate]

/-- No character is a surrogate. -/
theorem isHighSurrogate_toNat (char : Char) : isHighSurrogate char.toNat = false := by
  have hvalid := char.valid
  rw [Bool.eq_false_iff, Ne, isHighSurrogate_iff]
  simp only [UInt32.isValidChar, Nat.isValidChar, Char.toNat] at hvalid ⊢
  omega

/-- A unit or a pair of units that was read spells its character. -/
theorem unicode_took {scanner stop : Scanner} {start : Nat} {char : Char}
    (hok : scanner.unicode start = .ok (char, stop)) :
    ∃ text, CharText ('\\' :: 'u' :: text) char ∧ Took scanner text stop := by
  obtain ⟨⟨first, afterFirst⟩, hhex, hok⟩ := bind_eq_ok.mp hok
  obtain ⟨high, hhigh, htook⟩ := hex_took hhex
  simp only at hok
  split at hok
  next hsurrogate =>
    split at hok
    next => cases hok
    next next hnext =>
      obtain ⟨⟨second, afterSecond⟩, hhex, hok⟩ := bind_eq_ok.mp hok
      obtain ⟨low, hlow, hsecond⟩ := hex_took hhex
      obtain ⟨marked, hmarked, hunit⟩ := Option.bind_eq_some_iff.mp hnext
      simp only at hok
      split at hok
      next hlowSurrogate =>
        obtain ⟨hchar, rfl⟩ := scalarValue_eq_ok.mp hok
        refine ⟨_, .pair hhigh hlow (isHighSurrogate_iff.mp hsurrogate)
          (isLowSurrogate_iff.mp hlowSurrogate) hchar, ?_⟩
        exact htook.trans ((eat_eq_some.mp hmarked).trans ((eat_eq_some.mp hunit).trans hsecond))
      next => cases hok
  next =>
    obtain ⟨rfl, rfl⟩ := scalarValue_eq_ok.mp hok
    exact ⟨high, .unit hhigh, htook⟩

/-- One unit that is no surrogate is read as its character. -/
theorem unicode_of_unit {scanner stop : Scanner} {start : Nat} {digits : List Char} {char : Char}
    (hdigits : HexText digits char.toNat) (htook : Took scanner digits stop) :
    scanner.unicode start = .ok (char, stop) := by
  refine bind_eq_ok.mpr ⟨_, hex_of_took hdigits htook, ?_⟩
  simp only [isHighSurrogate_toNat, Bool.false_eq_true, if_false]
  exact scalarValue_eq_ok.mpr ⟨rfl, rfl⟩

/-- A high and a low surrogate are read as one character. -/
theorem unicode_of_pair {scanner stop : Scanner} {start first second : Nat} {high low : List Char}
    {char : Char} (hhigh : HexText high first) (hlow : HexText low second)
    (hfirst : 0xd800 ≤ first ∧ first ≤ 0xdbff) (hsecond : 0xdc00 ≤ second ∧ second ≤ 0xdfff)
    (hchar : char.toNat = 0x10000 + ((first - 0xd800) * 0x400) + (second - 0xdc00))
    (htook : Took scanner (high ++ '\\' :: 'u' :: low) stop) :
    scanner.unicode start = .ok (char, stop) := by
  obtain ⟨afterFirst, hfirstTook, hrest⟩ := htook.split
  refine bind_eq_ok.mpr ⟨_, hex_of_took hhigh hfirstTook, ?_⟩
  have hnext : ((afterFirst.eat '\\').bind fun next => next.eat 'u') =
      some afterFirst.advance.advance := by
    rw [eat_of_took hrest, Option.bind_some, eat_of_took hrest.advance_cons]
  simp only [if_pos (isHighSurrogate_iff.mpr hfirst), hnext]
  refine bind_eq_ok.mpr ⟨_, hex_of_took hlow hrest.advance_cons.advance_cons, ?_⟩
  rw [if_pos (isLowSurrogate_iff.mpr hsecond)]
  exact scalarValue_eq_ok.mpr ⟨hchar, rfl⟩

/-- An escape that was read spells its character. -/
theorem escape_took {scanner stop : Scanner} {char : Char} (hbackslash : scanner.peek = some '\\')
    (hok : scanner.escape = .ok (char, stop)) :
    ∃ text, CharText text char ∧ Took scanner text stop := by
  rw [escape] at hok
  cases hmark : scanner.advance.peek with
  | none =>
      rw [hmark] at hok
      cases hok
  | some mark =>
      have htook := (took_advance hbackslash).trans (took_advance hmark)
      rw [hmark] at hok
      cases hsimple : simpleEscape? mark with
      | some decoded =>
          simp only [hsimple] at hok
          cases hok
          exact ⟨['\\', mark], .simple hsimple, htook⟩
      | none =>
          simp only [hsimple] at hok
          split at hok
          next hunit =>
            subst hunit
            obtain ⟨text, htext, hrest⟩ := unicode_took hok
            exact ⟨_, htext, htook.trans hrest⟩
          next => cases hok

theorem escape_of_simple {scanner stop : Scanner} {mark char : Char}
    (hmark : simpleEscape? mark = some char) (htook : Took scanner ['\\', mark] stop) :
    scanner.escape = .ok (char, stop) := by
  have hnext := htook.advance_cons
  rw [escape, hnext.peek_cons]
  simp only [hmark]
  rw [(took_advance hnext.peek_cons).unique hnext]

theorem escape_of_unicode {scanner stop : Scanner} {text : List Char} {char : Char}
    (htook : Took scanner ('\\' :: 'u' :: text) stop)
    (hunicode : unicode scanner.advance.advance scanner.offset = .ok (char, stop)) :
    scanner.escape = .ok (char, stop) := by
  rw [escape, htook.advance_cons.peek_cons]
  exact hunicode

/-! ## Strings -/

/-- One turn of the loop that reads a string: its text so far, and where the scan stands. -/
def stringStep (state : List Char × Scanner) :
    Except ScanError (String × Scanner) ⊕ (List Char × Scanner) :=
  match state.2.peek with
  | none => .inl (.error (error state.2 .end))
  | some '"' => .inl (.ok (String.ofList state.1, state.2.advance))
  | some '\\' =>
      match escape state.2 with
      | .ok (char, next) => .inr (state.1 ++ [char], next)
      | .error error => .inl (.error error)
  | some char =>
      if char.toNat < 0x20 then .inl (.error (error state.2 .control))
      else .inr (state.1 ++ [char], state.2.advance)

/-- A turn that goes on has read one character of the string. -/
theorem stringStep_took {state next : List Char × Scanner} (hstep : stringStep state = .inr next) :
    ∃ raw char, CharText raw char ∧ Took state.2 raw next.2 ∧ next.1 = state.1 ++ [char] := by
  rcases state with ⟨text, scanner⟩
  simp only [stringStep] at hstep
  split at hstep
  next => cases hstep
  next => cases hstep
  next hbackslash =>
    split at hstep
    next char stop hescape =>
      cases hstep
      obtain ⟨raw, hraw, htook⟩ := escape_took hbackslash hescape
      exact ⟨raw, char, hraw, htook, rfl⟩
    next => cases hstep
  next char hquote hbackslash hpeek =>
    split at hstep
    next => cases hstep
    next hcontrol =>
      cases hstep
      exact ⟨[char], char, .plain hquote hbackslash (by omega), took_advance hpeek, rfl⟩

/-- A character is spelled by at least one. -/
theorem CharText.ne_nil {raw : List Char} {char : Char} (hraw : CharText raw char) : raw ≠ [] := by
  cases hraw <;> simp

/-- Taking a text leaves less of the rest. -/
theorem Took.length_lt {start stop : Scanner} {text : List Char} (htook : Took start text stop)
    (htext : text ≠ []) : stop.rest.length < start.rest.length := by
  have hlength := htook.length_eq
  have hpositive := List.length_pos_iff.mpr htext
  omega

def stringLoop : Loop (List Char × Scanner) (Except ScanError (String × Scanner)) where
  step := stringStep
  measure state := state.2.rest.length
  decreases state next hstep := by
    obtain ⟨raw, char, hraw, htook, _⟩ := stringStep_took hstep
    exact Took.length_lt htook (CharText.ne_nil hraw)

def string (scanner : Scanner) : Except ScanError (String × Scanner) :=
  stringLoop.run ([], scanner.advance)

theorem CharsText.concat {raw last decoded : List Char} {char : Char}
    (hraw : CharsText raw decoded) (hlast : CharText last char) :
    CharsText (raw ++ last) (decoded ++ [char]) := by
  induction hraw with
  | nil => simpa using CharsText.cons hlast .nil
  | cons hfirst _ ih =>
      rw [List.append_assoc, List.cons_append]
      exact .cons hfirst ih

/-- A string that was read is spelled by what was taken. -/
theorem string_took {scanner stop : Scanner} {text : String} (hquote : scanner.peek = some '"')
    (hok : scanner.string = .ok (text, stop)) :
    ∃ raw, StringText raw text ∧ Took scanner raw stop := by
  let read (state : List Char × Scanner) : Prop :=
    ∃ raw, CharsText raw state.1 ∧ Took scanner ('"' :: raw) state.2
  let closed (result : Except ScanError (String × Scanner)) : Prop :=
    ∀ text stop, result = .ok (text, stop) → ∃ raw, StringText raw text ∧ Took scanner raw stop
  have hrun : closed (stringLoop.run ([], scanner.advance)) := by
    refine @Loop.run_induction _ _ stringLoop read closed ?_ ?_ _ ?_
    · intro state next hread hstep
      obtain ⟨raw, hraw, htook⟩ := hread
      obtain ⟨last, char, hlast, hnext, htext⟩ := stringStep_took hstep
      refine ⟨raw ++ last, ?_, htook.trans hnext⟩
      rw [htext]
      exact CharsText.concat hraw hlast
    · intro state result hread hstep text stop hresult
      obtain ⟨raw, hraw, htook⟩ := hread
      rcases state with ⟨decoded, current⟩
      simp only [stringLoop, stringStep] at hstep
      split at hstep
      next =>
        cases hstep
        cases hresult
      next hend =>
        cases hstep
        cases hresult
        refine ⟨'"' :: (raw ++ ['"']), .quoted ?_, htook.trans (took_advance hend)⟩
        rwa [String.toList_ofList]
      next =>
        split at hstep
        next => cases hstep
        next =>
          cases hstep
          cases hresult
      next =>
        split at hstep
        next =>
          cases hstep
          cases hresult
        next => cases hstep
    · exact ⟨[], .nil, took_advance hquote⟩
  exact hrun text stop hok

/-- One turn of the loop reads one character. -/
theorem stringStep_of_charText {scanner next : Scanner} {raw : List Char} {char : Char}
    (hraw : CharText raw char) (htook : Took scanner raw next) (text : List Char) :
    stringStep (text, scanner) = .inr (text ++ [char], next) := by
  cases hraw with
  | plain hquote hbackslash hcontrol =>
      rw [stringStep, htook.peek_cons]
      split
      next hnone => cases hnone
      next hsome => exact absurd (Option.some.inj hsome) hquote
      next hsome => exact absurd (Option.some.inj hsome) hbackslash
      next other _ _ hsome =>
        cases Option.some.inj hsome
        rw [if_neg (by omega), (took_advance htook.peek_cons).unique htook]
  | simple hmark =>
      simp only [stringStep, htook.peek_cons, escape_of_simple hmark htook]
  | unit hdigits =>
      have hescape := escape_of_unicode htook
        (unicode_of_unit hdigits htook.advance_cons.advance_cons)
      simp only [stringStep, htook.peek_cons, hescape]
  | pair hhigh hlow hfirst hsecond hchar =>
      have hescape := escape_of_unicode htook
        (unicode_of_pair hhigh hlow hfirst hsecond hchar htook.advance_cons.advance_cons)
      simp only [stringStep, htook.peek_cons, hescape]

/-- The loop reads all the characters spelled. -/
theorem stringLoop_of_charsText {raw decoded : List Char} (hraw : CharsText raw decoded)
    {scanner next : Scanner} (htook : Took scanner raw next) (text : List Char) :
    stringLoop.run (text, scanner) = stringLoop.run (text ++ decoded, next) := by
  induction hraw generalizing scanner text with
  | nil =>
      cases (Took.refl scanner).unique htook
      rw [List.append_nil]
  | cons hfirst _ ih =>
      obtain ⟨middle, hbegin, hrest⟩ := htook.split
      rw [Loop.run_of_next (stringStep_of_charText hfirst hbegin text), ih hrest, List.append_assoc]
      rfl

/-- A string that is spelled is read. -/
theorem string_of_took {scanner stop : Scanner} {raw : List Char} {text : String}
    (hraw : StringText raw text) (htook : Took scanner raw stop) :
    scanner.string = .ok (text, stop) := by
  cases hraw with
  | quoted hraw =>
      obtain ⟨middle, hbegin, hquote⟩ := htook.advance_cons.split
      rw [string, stringLoop_of_charsText hraw hbegin, List.nil_append]
      apply Loop.run_of_result
      simp only [stringLoop, stringStep, hquote.peek_cons, String.ofList_toList]
      rw [(took_advance hquote.peek_cons).unique hquote]

/-! ## Keys and literals -/

/-- A key and its colon, with the offset of its opening quote. -/
def key (scanner : Scanner) : Except ScanError (Nat × String × Scanner) :=
  let atKey := scanner.skipWhitespace
  if atKey.peek = some '"' then do
    let (key, afterKey) ← atKey.string
    match (skipWhitespace afterKey).eat ':' with
    | some next => .ok (atKey.offset, key, next)
    | none => .error (unexpected (skipWhitespace afterKey) "':'")
  else .error (atKey.unexpected "a string key")

def literal (scanner : Scanner) (word : List Char) (value : Json) :
    Except ScanError (Json × Scanner) :=
  if word.isPrefixOf scanner.rest then
    .ok (value, ⟨scanner.rest.drop word.length, scanner.offset + Utf8.size word⟩)
  else .error (scanner.error (.expected "a value"))

def scalar (scanner : Scanner) : Except ScanError (Json × Scanner) :=
  match scanner.peek with
  | some '"' => (scanner.string).map fun read => (.string read.1, read.2)
  | some 't' => scanner.literal ['t', 'r', 'u', 'e'] (.bool true)
  | some 'f' => scanner.literal ['f', 'a', 'l', 's', 'e'] (.bool false)
  | some 'n' => scanner.literal ['n', 'u', 'l', 'l'] .null
  | some char =>
      if char = '-' ∨ char.isDigit then (scanner.number).map fun read => (.number read.1, read.2)
      else .error (scanner.unexpected "a value")
  | none => .error (scanner.unexpected "a value")

theorem skipWhitespace_took (scanner : Scanner) :
    ∃ blank, Blank blank ∧ Took scanner blank scanner.skipWhitespace :=
  ⟨_, fun _ hchar => List.mem_takeWhile_imp hchar, took_skipWhile isBlank scanner⟩

theorem skipWhitespace_of_took {scanner middle : Scanner} {blank : List Char}
    (hblank : Blank blank) (htook : Took scanner blank middle) :
    scanner.skipWhitespace = skipWhitespace middle :=
  skipWhile_of_took htook hblank

theorem skipWhitespace_of_peek {scanner : Scanner} {char : Char} (hpeek : scanner.peek = some char)
    (hchar : isBlank char = false) : scanner.skipWhitespace = scanner := by
  apply skipWhile_of_halts (Took.refl scanner)
  · intro other hother
    cases hother
  · intro other hother
    cases hpeek.symm.trans hother
    exact hchar

/-- A key that was read is spelled with its blanks and its colon, its offset at the quote. -/
theorem key_took {scanner stop : Scanner} {offset : Nat} {key : String}
    (hok : scanner.key = .ok (offset, key, stop)) :
    ∃ before raw after middle, Blank before ∧ StringText raw key ∧ Blank after ∧
      Took scanner before middle ∧ middle.offset = offset ∧
      Took middle (raw ++ (after ++ [':'])) stop := by
  rw [Scanner.key] at hok
  simp only at hok
  split at hok
  next hquote =>
    obtain ⟨⟨text, afterKey⟩, hstring, hok⟩ := bind_eq_ok.mp hok
    simp only at hok
    split at hok
    next next hcolon =>
      cases hok
      obtain ⟨before, hbefore, hskipped⟩ := skipWhitespace_took scanner
      obtain ⟨raw, hraw, htook⟩ := string_took hquote hstring
      obtain ⟨after, hafter, hspaced⟩ := skipWhitespace_took afterKey
      exact ⟨before, raw, after, _, hbefore, hraw, hafter, hskipped, rfl,
        htook.trans (hspaced.trans (eat_eq_some.mp hcolon))⟩
    next => cases hok
  next => cases hok

theorem StringText.peek {scanner stop : Scanner} {raw : List Char} {text : String}
    (hraw : StringText raw text) (htook : Took scanner raw stop) : scanner.peek = some '"' := by
  cases hraw with
  | quoted => exact htook.peek_cons

/-- A key that is spelled is read. -/
theorem key_of_took {scanner stop : Scanner} {text : List Char} {key : String}
    (htext : KeyText text key) (htook : Took scanner text stop) :
    ∃ offset, scanner.key = .ok (offset, key, stop) := by
  cases htext with
  | key hbefore hraw hafter =>
      obtain ⟨atKey, hskipped, htook⟩ := htook.split
      obtain ⟨afterKey, hstring, htook⟩ := htook.split
      obtain ⟨atColon, hspaced, hcolon⟩ := htook.split
      have hquote := StringText.peek hraw hstring
      have hatKey : scanner.skipWhitespace = atKey :=
        (skipWhitespace_of_took hbefore hskipped).trans (skipWhitespace_of_peek hquote rfl)
      have hatColon : skipWhitespace afterKey = atColon :=
        (skipWhitespace_of_took hafter hspaced).trans (skipWhitespace_of_peek hcolon.peek_cons rfl)
      refine ⟨atKey.offset, ?_⟩
      rw [Scanner.key]
      simp only [hatKey, if_pos hquote]
      refine bind_eq_ok.mpr ⟨_, string_of_took hraw hstring, ?_⟩
      simp only [hatColon, eat_eq_some.mpr hcolon]

theorem literal_took {scanner stop : Scanner} {word : List Char} {value read : Json}
    (hok : scanner.literal word value = .ok (read, stop)) :
    read = value ∧ Took scanner word stop := by
  rw [literal] at hok
  split at hok
  next hprefix =>
    cases hok
    obtain ⟨rest, hrest⟩ := List.isPrefixOf_iff_prefix.mp hprefix
    exact ⟨rfl, by simp [← hrest], rfl⟩
  next => cases hok

theorem literal_of_took {scanner stop : Scanner} {word : List Char}
    (htook : Took scanner word stop) (value : Json) :
    scanner.literal word value = .ok (value, stop) := by
  rw [literal, if_pos (List.isPrefixOf_iff_prefix.mpr ⟨stop.rest, htook.rest.symm⟩), htook.rest,
    List.drop_left, ← htook.offset]

/-- A scalar that was read is spelled by what was taken. -/
theorem scalar_took {scanner stop : Scanner} {value : Json}
    (hok : scanner.scalar = .ok (value, stop)) :
    ∃ text, Spells text (.value value) ∧ value.NoRepeat ∧ Took scanner text stop := by
  rw [scalar] at hok
  split at hok
  next hquote =>
    cases hstring : scanner.string with
    | error _ =>
        rw [hstring] at hok
        cases hok
    | ok read =>
        rw [hstring] at hok
        cases hok
        obtain ⟨raw, hraw, htook⟩ := string_took hquote hstring
        exact ⟨raw, .string hraw, .string _, htook⟩
  next =>
    obtain ⟨rfl, htook⟩ := literal_took hok
    exact ⟨_, .literalTrue, .bool true, htook⟩
  next =>
    obtain ⟨rfl, htook⟩ := literal_took hok
    exact ⟨_, .literalFalse, .bool false, htook⟩
  next =>
    obtain ⟨rfl, htook⟩ := literal_took hok
    exact ⟨_, .literalNull, .null, htook⟩
  next =>
    split at hok
    next =>
      cases hnumber : scanner.number with
      | error _ =>
          rw [hnumber] at hok
          cases hok
      | ok read =>
          rw [hnumber] at hok
          cases hok
          exact ⟨_, .number read.1, .number _, number_took hnumber⟩
    next => cases hok
  next => cases hok

end Scanner

end Plasmosome.Reply
