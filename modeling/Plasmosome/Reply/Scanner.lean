import Plasmosome.Foundation.Cursor
import Plasmosome.Foundation.Loop
import Plasmosome.Foundation.Checks
import Plasmosome.Reply.Grammar

/-!
# Scanning the parts of a value

What the scanner reads between two structural characters: blanks, numbers,
strings, keys and literals. What each part accepts is a text of the grammar, and
it accepts every such text that what follows does not go on with.
-/

namespace Plasmosome.Reply

open Foundation Foundation.Cursor

/-- What broke the grammar, or the rule against a repeated key. -/
inductive Reason where
  | notUtf8
  | end
  | expected (what : String)
  | number
  | control
  | escape
  | loneSurrogate
  | trailing
  | tooLarge
  | duplicateKey (path : String)
deriving DecidableEq, Repr

/-- Why a text is refused, and the byte offset where the scanner noticed. -/
structure ScanError where
  offset : Nat
  reason : Reason
deriving DecidableEq, Repr

/-- The position of a scan in its text. -/
abbrev Scanner := Cursor

namespace Scanner

def error (scanner : Scanner) (reason : Reason) : ScanError := ⟨scanner.offset, reason⟩

def unexpected (scanner : Scanner) (what : String) : ScanError :=
  if scanner.rest = [] then scanner.error .end else scanner.error (.expected what)

def skipWhitespace (scanner : Scanner) : Scanner := scanner.skipWhile isBlank

/-! ## Numbers -/

def digits (scanner : Scanner) : Scanner := scanner.skipWhile Char.isDigit

def requiredDigits (scanner : Scanner) : Except ScanError Scanner :=
  if scanner.peek.any Char.isDigit then .ok scanner.digits else .error (scanner.error .number)

def sign (scanner : Scanner) : Scanner := (scanner.eat '-').getD scanner

/-- The digits before a number's point: a zero stands alone. -/
def integer (scanner : Scanner) : Except ScanError Scanner :=
  match scanner.peek with
  | some '0' =>
      if scanner.advance.peek.any Char.isDigit then .error (error scanner.advance .number)
      else .ok scanner.advance
  | some char => if char.isDigit then .ok scanner.digits else .error (scanner.error .number)
  | none => .error (scanner.error .number)

def fraction (scanner : Scanner) : Except ScanError Scanner :=
  match scanner.eat '.' with
  | some next => requiredDigits next
  | none => .ok scanner

def exponent (scanner : Scanner) : Except ScanError Scanner :=
  match (scanner.eat 'e').or (scanner.eat 'E') with
  | some next => requiredDigits (((next.eat '+').or (next.eat '-')).getD next)
  | none => .ok scanner

/-- Where a number that starts here ends. -/
def numberEnd (scanner : Scanner) : Except ScanError Scanner := do
  let afterInteger ← integer scanner.sign
  let afterFraction ← afterInteger.fraction
  afterFraction.exponent

/-- A character a number goes on with before its exponent. -/
def continuesFraction (char : Char) : Bool := char.isDigit || char = '.'

/-- A character a number goes on with. -/
def continuesNumber (char : Char) : Bool := continuesFraction char || char = 'e' || char = 'E'

theorem continuesFraction_of_isDigit {char : Char} (hdigit : char.isDigit) :
    continuesFraction char := by
  simp [continuesFraction, hdigit]

theorem continuesNumber_of_isDigit {char : Char} (hdigit : char.isDigit) :
    continuesNumber char := by
  simp [continuesNumber, continuesFraction, hdigit]

theorem requiredDigits_took {scanner stop : Scanner} (hok : scanner.requiredDigits = .ok stop) :
    ∃ text, Digits text ∧ Took scanner text stop := by
  rw [requiredDigits] at hok
  split at hok
  next hfirst =>
    cases hok
    refine ⟨_, ⟨?_, ?_⟩, took_skipWhile Char.isDigit scanner⟩
    · intro hempty
      rw [List.takeWhile_eq_nil_iff] at hempty
      rcases scanner with ⟨rest, offset⟩
      cases rest with
      | nil => simp [peek] at hfirst
      | cons char rest => simp_all [peek]
    · intro char hchar
      exact List.mem_takeWhile_imp hchar
  next => cases hok

theorem requiredDigits_of_took {scanner stop : Scanner} {text : List Char} (hdigits : Digits text)
    (htook : Took scanner text stop) (hhalts : stop.Halts Char.isDigit) :
    scanner.requiredDigits = .ok stop := by
  obtain ⟨hne, hall⟩ := hdigits
  cases text with
  | nil => exact absurd rfl hne
  | cons first rest =>
      have hfirst := hall first List.mem_cons_self
      rw [requiredDigits, htook.peek_cons, if_pos (by simpa using hfirst), digits,
        skipWhile_of_halts htook hall hhalts]

theorem sign_took (scanner : Scanner) :
    ∃ text, (text = [] ∨ text = ['-']) ∧ Took scanner text scanner.sign := by
  rw [sign]
  cases heat : scanner.eat '-' with
  | none => exact ⟨[], .inl rfl, Took.refl scanner⟩
  | some next => exact ⟨['-'], .inr rfl, eat_eq_some.mp heat⟩

theorem integer_took {scanner stop : Scanner} (hok : scanner.integer = .ok stop) :
    ∃ text, IntegerText text ∧ Took scanner text stop := by
  rw [integer] at hok
  split at hok
  next hzero =>
    split at hok
    next => cases hok
    next =>
      cases hok
      exact ⟨['0'], .zero, took_advance hzero⟩
  next char hnonzero hpeek =>
    split at hok
    next hdigit =>
      cases hok
      obtain ⟨rest, hrest⟩ : ∃ rest, scanner.rest = char :: rest := by
        rw [peek, List.head?_eq_some_iff] at hpeek
        exact hpeek
      have htook := took_skipWhile Char.isDigit scanner
      rw [hrest, List.takeWhile_cons_of_pos hdigit] at htook
      refine ⟨_, .digits hdigit hnonzero ?_, htook⟩
      intro other hother
      exact List.mem_takeWhile_imp hother
    next => cases hok
  next => cases hok

theorem integer_of_took {scanner stop : Scanner} {text : List Char} (hinteger : IntegerText text)
    (htook : Took scanner text stop) (hhalts : stop.Halts Char.isDigit) :
    scanner.integer = .ok stop := by
  cases hinteger with
  | zero =>
      have hstop := (took_advance htook.peek_cons).unique htook
      rw [integer, htook.peek_cons]
      simp only [hstop]
      rw [if_neg]
      cases hnext : stop.peek with
      | none => simp
      | some char => simp [hhalts char hnext]
  | digits hfirst hnonzero hrest =>
      rename_i first rest
      rw [integer, htook.peek_cons]
      split
      next hzero => exact absurd (Option.some.inj hzero) hnonzero
      next char hchar hpeek =>
        cases Option.some.inj hpeek
        rw [if_pos hfirst, digits, skipWhile_of_halts htook (List.forall_mem_cons.mpr ⟨hfirst, hrest⟩)
          hhalts]
      next hpeek => cases hpeek

theorem fraction_took {scanner stop : Scanner} (hok : scanner.fraction = .ok stop) :
    ∃ text, FractionText text ∧ Took scanner text stop := by
  rw [fraction] at hok
  cases heat : scanner.eat '.' with
  | none =>
      rw [heat] at hok
      cases hok
      exact ⟨[], .absent, Took.refl scanner⟩
  | some next =>
      rw [heat] at hok
      obtain ⟨digits, hdigits, htook⟩ := requiredDigits_took hok
      exact ⟨_, .present hdigits, (eat_eq_some.mp heat).trans htook⟩

theorem fraction_of_took {scanner stop : Scanner} {text : List Char} (hfraction : FractionText text)
    (htook : Took scanner text stop) (hhalts : stop.Halts continuesFraction) :
    scanner.fraction = .ok stop := by
  cases hfraction with
  | absent =>
      cases (Took.refl scanner).unique htook
      rw [fraction, hhalts.eat_eq_none rfl]
  | present hdigits =>
      rw [fraction, eat_of_took htook]
      exact requiredDigits_of_took hdigits htook.advance_cons
        (hhalts.mono fun _ => continuesFraction_of_isDigit)

theorem exponentSign_took (scanner : Scanner) :
    ∃ text, (text = [] ∨ text = ['+'] ∨ text = ['-']) ∧
      Took scanner text (((scanner.eat '+').or (scanner.eat '-')).getD scanner) := by
  cases hplus : scanner.eat '+' with
  | some next => exact ⟨['+'], .inr (.inl rfl), eat_eq_some.mp hplus⟩
  | none =>
      cases hminus : scanner.eat '-' with
      | some next => exact ⟨['-'], .inr (.inr rfl), eat_eq_some.mp hminus⟩
      | none => exact ⟨[], .inl rfl, Took.refl scanner⟩

theorem exponent_took {scanner stop : Scanner} (hok : scanner.exponent = .ok stop) :
    ∃ text, ExponentText text ∧ Took scanner text stop := by
  rw [exponent] at hok
  cases heat : (scanner.eat 'e').or (scanner.eat 'E') with
  | none =>
      rw [heat] at hok
      cases hok
      exact ⟨[], .absent, Took.refl scanner⟩
  | some next =>
      rw [heat] at hok
      obtain ⟨digits, hdigits, htook⟩ := requiredDigits_took hok
      obtain ⟨sign, hsign, hsigned⟩ := exponentSign_took next
      rcases Option.or_eq_some_iff.mp heat with hlower | ⟨_, hupper⟩
      · exact ⟨_, .present (.inl rfl) hsign hdigits,
          (eat_eq_some.mp hlower).trans (hsigned.trans htook)⟩
      · exact ⟨_, .present (.inr rfl) hsign hdigits,
          (eat_eq_some.mp hupper).trans (hsigned.trans htook)⟩

theorem Digits.peek {scanner stop : Scanner} {text : List Char} (hdigits : Digits text)
    (htook : Took scanner text stop) : ∃ char, scanner.peek = some char ∧ char.isDigit := by
  obtain ⟨hne, hall⟩ := hdigits
  cases text with
  | nil => exact absurd rfl hne
  | cons first rest => exact ⟨first, htook.peek_cons, hall first List.mem_cons_self⟩

theorem exponentSign_of_took {scanner middle stop : Scanner} {sign digits : List Char}
    (hsign : sign = [] ∨ sign = ['+'] ∨ sign = ['-']) (htook : Took scanner sign middle)
    (hdigits : Digits digits) (hrest : Took middle digits stop) :
    ((scanner.eat '+').or (scanner.eat '-')).getD scanner = middle := by
  rcases hsign with rfl | rfl | rfl
  · cases (Took.refl scanner).unique htook
    obtain ⟨char, hpeek, hchar⟩ := Digits.peek hdigits hrest
    rw [Cursor.eat_eq_none, Cursor.eat_eq_none]
    · rfl
    · intro hminus
      cases hpeek.symm.trans hminus
      cases hchar
    · intro hplus
      cases hpeek.symm.trans hplus
      cases hchar
  · rw [eat_eq_some.mpr htook]
    rfl
  · rw [Cursor.eat_eq_none (by simp [htook.peek_cons]), eat_eq_some.mpr htook]
    rfl

theorem exponent_of_took {scanner stop : Scanner} {text : List Char} (hexponent : ExponentText text)
    (htook : Took scanner text stop) (hhalts : stop.Halts continuesNumber) :
    scanner.exponent = .ok stop := by
  cases hexponent with
  | absent =>
      cases (Took.refl scanner).unique htook
      rw [exponent, hhalts.eat_eq_none rfl, hhalts.eat_eq_none rfl]
      rfl
  | present hmark hsign hdigits =>
      obtain ⟨middle, hsigned, hrest⟩ := htook.advance_cons.split
      have hmarked : (scanner.eat 'e').or (scanner.eat 'E') = some scanner.advance := by
        rcases hmark with rfl | rfl
        · rw [eat_of_took htook]
          rfl
        · rw [Cursor.eat_eq_none (by simp [htook.peek_cons]), eat_of_took htook]
          rfl
      rw [exponent, hmarked]
      simp only [exponentSign_of_took hsign hsigned hdigits hrest]
      exact requiredDigits_of_took hdigits hrest
        (hhalts.mono fun _ => continuesNumber_of_isDigit)

theorem numberEnd_took {scanner stop : Scanner} (hok : scanner.numberEnd = .ok stop) :
    ∃ text, NumberText text ∧ Took scanner text stop := by
  obtain ⟨afterInteger, hinteger, hok⟩ := bind_eq_ok.mp hok
  obtain ⟨afterFraction, hfraction, hexponent⟩ := bind_eq_ok.mp hok
  obtain ⟨sign, hsign, hsigned⟩ := sign_took scanner
  obtain ⟨integer, hinteger, hwhole⟩ := integer_took hinteger
  obtain ⟨fraction, hfraction, hpoint⟩ := fraction_took hfraction
  obtain ⟨exponent, hexponent, hpower⟩ := exponent_took hexponent
  exact ⟨_, .number hsign hinteger hfraction hexponent,
    hsigned.trans (hwhole.trans (hpoint.trans hpower))⟩

theorem sign_of_took {scanner middle stop : Scanner} {sign integer : List Char}
    (hsign : sign = [] ∨ sign = ['-']) (htook : Took scanner sign middle)
    (hinteger : IntegerText integer) (hrest : Took middle integer stop) :
    scanner.sign = middle := by
  rcases hsign with rfl | rfl
  · cases (Took.refl scanner).unique htook
    rw [Scanner.sign, Cursor.eat_eq_none]
    · rfl
    · intro hminus
      cases hinteger with
      | zero => cases hrest.peek_cons.symm.trans hminus
      | digits hfirst _ _ =>
          cases hrest.peek_cons.symm.trans hminus
          cases hfirst
  · rw [Scanner.sign, eat_eq_some.mpr htook]
    rfl

theorem exponent_halts {scanner stop : Scanner} {exponent : List Char}
    (hexponent : ExponentText exponent) (htook : Took scanner exponent stop)
    (hhalts : stop.Halts continuesNumber) : scanner.Halts continuesFraction := by
  cases hexponent with
  | absent =>
      cases (Took.refl scanner).unique htook
      exact hhalts.mono fun char hchar => by simp [continuesNumber, hchar]
  | present hmark _ _ =>
      intro char hpeek
      cases htook.peek_cons.symm.trans hpeek
      rcases hmark with rfl | rfl <;> rfl

theorem fraction_halts {scanner stop : Scanner} {fraction : List Char}
    (hfraction : FractionText fraction) (htook : Took scanner fraction stop)
    (hhalts : stop.Halts continuesFraction) : scanner.Halts Char.isDigit := by
  cases hfraction with
  | absent =>
      cases (Took.refl scanner).unique htook
      exact hhalts.mono fun _ => continuesFraction_of_isDigit
  | present _ =>
      intro char hpeek
      cases htook.peek_cons.symm.trans hpeek
      rfl

theorem numberEnd_of_took {scanner stop : Scanner} {text : List Char} (hnumber : NumberText text)
    (htook : Took scanner text stop) (hhalts : stop.Halts continuesNumber) :
    scanner.numberEnd = .ok stop := by
  cases hnumber with
  | number hsign hinteger hfraction hexponent =>
      obtain ⟨afterSign, hsigned, htook⟩ := htook.split
      obtain ⟨afterInteger, hwhole, htook⟩ := htook.split
      obtain ⟨afterFraction, hpoint, hpower⟩ := htook.split
      have hend := exponent_halts hexponent hpower hhalts
      refine bind_eq_ok.mpr ⟨afterInteger, ?_, bind_eq_ok.mpr ⟨afterFraction, ?_, ?_⟩⟩
      · rw [sign_of_took hsign hsigned hinteger hwhole]
        exact integer_of_took hinteger hwhole (fraction_halts hfraction hpoint hend)
      · exact fraction_of_took hfraction hpoint hend
      · exact exponent_of_took hexponent hpower hhalts

theorem numberText_slice {scanner stop : Scanner} (hok : scanner.numberEnd = .ok stop) :
    NumberText (String.ofList (scanner.slice stop)).toList := by
  obtain ⟨text, htext, htook⟩ := numberEnd_took hok
  rw [String.toList_ofList, htook.slice_eq]
  exact htext

/-- A number, with its text as it stands. -/
def number (scanner : Scanner) : Except ScanError (Number × Scanner) :=
  match hok : scanner.numberEnd with
  | .error error => .error error
  | .ok stop => .ok (⟨String.ofList (scanner.slice stop), numberText_slice hok⟩, stop)

theorem number_eq_ok {scanner stop : Scanner} {number : Number} :
    scanner.number = .ok (number, stop) ↔
      scanner.numberEnd = .ok stop ∧ number.text = String.ofList (scanner.slice stop) := by
  rw [Scanner.number]
  split
  next error herror => simp [herror]
  next other hother =>
    rw [Except.ok.injEq, Prod.mk.injEq, Number.ext_iff]
    constructor
    · intro hnumber
      obtain ⟨htext, rfl⟩ := hnumber
      exact ⟨hother, htext.symm⟩
    · intro hnumber
      obtain ⟨hstop, htext⟩ := hnumber
      cases hother.symm.trans hstop
      exact ⟨htext.symm, rfl⟩

theorem number_took {scanner stop : Scanner} {number : Number}
    (hok : scanner.number = .ok (number, stop)) : Took scanner number.text.toList stop := by
  obtain ⟨hend, htext⟩ := number_eq_ok.mp hok
  obtain ⟨text, _, htook⟩ := numberEnd_took hend
  rw [htext, String.toList_ofList, htook.slice_eq]
  exact htook

theorem number_of_took {scanner stop : Scanner} {number : Number}
    (htook : Took scanner number.text.toList stop) (hhalts : stop.Halts continuesNumber) :
    scanner.number = .ok (number, stop) := by
  refine number_eq_ok.mpr ⟨numberEnd_of_took number.valid htook hhalts, ?_⟩
  rw [htook.slice_eq, String.ofList_toList]

end Scanner

/-- A number of the text, if the number grammar accepts all of it. -/
def Number.new (text : String) : Option Number :=
  match Scanner.number ⟨text.toList, 0⟩ with
  | .ok (number, stop) => if stop.rest = [] then some number else none
  | .error _ => none

theorem Number.new_eq_some {text : String} {number : Number} :
    Number.new text = some number ↔ number.text = text := by
  constructor
  · intro hnew
    rw [Number.new] at hnew
    split at hnew
    next other stop hok =>
      split at hnew
      next hend =>
        cases Option.some.inj hnew
        have hrest := (Scanner.number_took hok).rest
        rw [hend, List.append_nil] at hrest
        exact String.toList_inj.mp hrest.symm
      next => cases hnew
    next => cases hnew
  · intro htext
    have htook : Took ⟨text.toList, 0⟩ number.text.toList ⟨[], 0 + Utf8.size number.text.toList⟩ :=
      ⟨by rw [htext, List.append_nil], rfl⟩
    rw [Number.new, Scanner.number_of_took htook (by intro char hpeek; cases hpeek)]
    rfl

end Plasmosome.Reply
