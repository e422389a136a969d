import Plasmosome.Reply.ScanSound

/-!
# A scan accepts every document without repeated keys

A text of the grammar moves the scan from expecting a value to holding it, with
the frames around it left as they are.
-/

namespace Plasmosome.Reply

open Foundation Foundation.Cursor

namespace Scan

/-! ## Single turns -/

theorem run_expects_blank {frames : List Frame} {start stop : Scanner} {blank : List Char}
    (hblank : Blank blank) (htook : Took start blank stop) :
    loop.run ⟨frames, .expects, start⟩ = loop.run ⟨frames, .expects, stop⟩ := by
  apply Loop.run_eq_of_step_eq
  change expect frames (Scanner.skipWhitespace start) = expect frames (Scanner.skipWhitespace stop)
  rw [Scanner.skipWhitespace_of_took hblank htook]

theorem run_holds_blank {frames : List Frame} {value : Json} {start stop : Scanner}
    {blank : List Char} (hblank : Blank blank) (htook : Took start blank stop) :
    loop.run ⟨frames, .holds value, start⟩ = loop.run ⟨frames, .holds value, stop⟩ := by
  apply Loop.run_eq_of_step_eq
  change hold frames value (Scanner.skipWhitespace start) =
    hold frames value (Scanner.skipWhitespace stop)
  rw [Scanner.skipWhitespace_of_took hblank htook]

theorem run_expects_next {frames : List Frame} {scanner : Scanner} {char : Char} {next : Scan}
    (hpeek : scanner.peek = some char) (hchar : isBlank char = false)
    (hexpect : expect frames scanner = .inr next) :
    loop.run ⟨frames, .expects, scanner⟩ = loop.run next := by
  apply Loop.run_of_next
  change expect frames (Scanner.skipWhitespace scanner) = .inr next
  rw [Scanner.skipWhitespace_of_peek hpeek hchar, hexpect]

theorem run_holds_next {frames : List Frame} {value : Json} {scanner : Scanner} {char : Char}
    {next : Scan} (hpeek : scanner.peek = some char) (hchar : isBlank char = false)
    (hhold : hold frames value scanner = .inr next) :
    loop.run ⟨frames, .holds value, scanner⟩ = loop.run next := by
  apply Loop.run_of_next
  change hold frames value (Scanner.skipWhitespace scanner) = .inr next
  rw [Scanner.skipWhitespace_of_peek hpeek hchar, hhold]

theorem run_scalar {frames : List Frame} {scanner stop : Scanner} {char : Char} {value : Json}
    (hpeek : scanner.peek = some char) (hblank : isBlank char = false) (hbracket : char ≠ '[')
    (hbrace : char ≠ '\x7b') (hscalar : Scanner.scalar scanner = .ok (value, stop)) :
    loop.run ⟨frames, .expects, scanner⟩ = loop.run ⟨frames, .holds value, stop⟩ := by
  apply run_expects_next hpeek hblank
  rw [expect, hpeek]
  split
  next hsome => exact absurd (Option.some.inj hsome) hbracket
  next hsome => exact absurd (Option.some.inj hsome) hbrace
  next => rw [hscalar]

theorem continuesNumber_of_isBlank {char : Char} (hblank : isBlank char) :
    Scanner.continuesNumber char = false := by
  simp only [isBlank, Bool.or_eq_true, decide_eq_true_eq] at hblank
  rcases hblank with ((rfl | rfl) | rfl) | rfl <;> rfl

theorem halts_of_took {start stop : Scanner} {blank rest : List Char} {char : Char}
    (hblank : Blank blank) (htook : Took start (blank ++ char :: rest) stop)
    (hchar : Scanner.continuesNumber char = false) : start.Halts Scanner.continuesNumber := by
  intro other hother
  cases blank with
  | nil =>
      cases htook.peek_cons.symm.trans hother
      exact hchar
  | cons first blank =>
      cases htook.peek_cons.symm.trans hother
      exact continuesNumber_of_isBlank (hblank other List.mem_cons_self)

end Scan

/-! ## How a value begins -/

/-- The first character of a value's text is no blank and closes no container. -/
theorem NumberText.head {text : List Char} (htext : NumberText text) :
    ∃ char rest, text = char :: rest ∧ (char = '-' ∨ char.isDigit) := by
  cases htext with
  | number hsign hinteger _ _ =>
      rcases hsign with rfl | rfl
      · cases hinteger with
        | zero => exact ⟨'0', _, rfl, .inr rfl⟩
        | digits hfirst _ _ => exact ⟨_, _, rfl, .inr hfirst⟩
      · exact ⟨'-', _, rfl, .inl rfl⟩

theorem startsNumber_plain {char : Char} (hchar : char = '-' ∨ char.isDigit) :
    isBlank char = false ∧ char ≠ '[' ∧ char ≠ '\x7b' ∧ char ≠ ']' ∧ char ≠ '"' ∧
      char ≠ 't' ∧ char ≠ 'f' ∧ char ≠ 'n' := by
  rcases hchar with rfl | hdigit
  · decide
  · refine ⟨?_, ?_, ?_, ?_, ?_, ?_, ?_, ?_⟩
    · rw [Bool.eq_false_iff]
      intro hblank
      simp only [isBlank, Bool.or_eq_true, decide_eq_true_eq] at hblank
      rcases hblank with ((rfl | rfl) | rfl) | rfl <;> cases hdigit
    all_goals
      rintro rfl
      cases hdigit

theorem Spells.head {text : List Char} {value : Json} (hspells : Spells text (.value value)) :
    ∃ char rest, text = char :: rest ∧ isBlank char = false ∧ char ≠ ']' := by
  cases hspells with
  | number number =>
      obtain ⟨char, rest, htext, hchar⟩ := number.valid.head
      obtain ⟨hblank, _, _, hbracket, _⟩ := startsNumber_plain hchar
      exact ⟨char, rest, htext, hblank, hbracket⟩
  | string htext =>
      cases htext
      exact ⟨'"', _, rfl, rfl, by decide⟩
  | _ => exact ⟨_, _, rfl, rfl, by decide⟩

/-- Where an array's items begin, no bracket closes it. -/
def Leads (text : List Char) : Prop :=
  ∃ blank char rest, text = blank ++ char :: rest ∧ Blank blank ∧ isBlank char = false ∧ char ≠ ']'

theorem Spells.leads {text : List Char} {shape : Shape} (hspells : Spells text shape)
    {items : List Json} (hshape : shape = .items items) {before inner rest : List Char}
    {value : Json} (hbefore : Blank before) (hinner : Spells inner (.value value)) :
    Leads (text ++ (before ++ (inner ++ rest))) := by
  induction hspells generalizing items before inner rest value with
  | noItems =>
      obtain ⟨char, tail, rfl, hblank, hbracket⟩ := hinner.head
      exact ⟨before, char, tail ++ rest, by simp, hbefore, hblank, hbracket⟩
  | @item _ _ _ behind _ _ _ hlead hlast _ ih _ =>
      have hleads := @ih _ rfl _ _ (behind ++ ([','] ++ (before ++ (inner ++ rest)))) _ hlead hlast
      simpa [List.append_assoc] using hleads
  | _ => cases hshape

namespace Scan

/-- Skipping blanks lands on the first character that is none. -/
theorem skipWhitespace_of_leads {start stop : Scanner} {blank rest : List Char} {char : Char}
    (hblank : Blank blank) (hchar : isBlank char = false)
    (htook : Took start (blank ++ char :: rest) stop) :
    (Scanner.skipWhitespace start).peek = some char := by
  obtain ⟨middle, hskipped, hrest⟩ := htook.split
  rw [Scanner.skipWhitespace_of_took hblank hskipped,
    Scanner.skipWhitespace_of_peek hrest.peek_cons hchar]
  exact hrest.peek_cons

theorem run_openArray {frames : List Frame} {start stop : Scanner} {text : List Char}
    (hleads : Leads text) (htook : Took start ('[' :: text) stop) :
    loop.run ⟨frames, .expects, start⟩ =
      loop.run ⟨.array [] :: frames, .expects, start.advance⟩ := by
  obtain ⟨blank, char, rest, rfl, hblank, hchar, hbracket⟩ := hleads
  have hpeek := skipWhitespace_of_leads hblank hchar htook.advance_cons
  have hnone : (Scanner.skipWhitespace start.advance).eat ']' = none := by
    apply eat_eq_none
    rw [hpeek]
    simpa using hbracket
  have hexpect : expect frames start =
      .inr ⟨.array [] :: frames, .expects, Scanner.skipWhitespace start.advance⟩ := by
    rw [expect, htook.peek_cons]
    simp only [openArray, hnone]
  obtain ⟨skipped, hskipped, htook'⟩ := Scanner.skipWhitespace_took start.advance
  rw [run_expects_next htook.peek_cons rfl hexpect, ← run_expects_blank hskipped htook']

theorem run_closeArray {outer : List Frame} {items : List Json} {last : Json}
    {start stop : Scanner} {after : List Char} (hafter : Blank after)
    (htook : Took start (after ++ [']']) stop) :
    loop.run ⟨.array items :: outer, .holds last, start⟩ =
      loop.run ⟨outer, .holds (.array (items ++ [last])), stop⟩ := by
  obtain ⟨middle, hskipped, hbracket⟩ := htook.split
  rw [run_holds_blank hafter hskipped]
  apply run_holds_next hbracket.peek_cons rfl
  rw [hold, holdInArray, eat_eq_none (by simp [hbracket.peek_cons]), eat_eq_some.mpr hbracket]

theorem run_nextItem {outer : List Frame} {items : List Json} {last : Json}
    {start stop : Scanner} {after : List Char} (hafter : Blank after)
    (htook : Took start (after ++ [',']) stop) :
    loop.run ⟨.array items :: outer, .holds last, start⟩ =
      loop.run ⟨.array (items ++ [last]) :: outer, .expects, stop⟩ := by
  obtain ⟨middle, hskipped, hcomma⟩ := htook.split
  rw [run_holds_blank hafter hskipped]
  apply run_holds_next hcomma.peek_cons rfl
  rw [hold, holdInArray, eat_eq_some.mpr hcomma]

theorem run_openObject {outer : List Frame} {start stop : Scanner} {keyText : List Char}
    {key : String} (hkey : KeyText keyText key) (htook : Took start ('\x7b' :: keyText) stop) :
    loop.run ⟨outer, .expects, start⟩ =
      loop.run ⟨.object (.holding [] key) :: outer, .expects, stop⟩ := by
  apply run_expects_next htook.peek_cons rfl
  have hinside := htook.advance_cons
  rw [expect, htook.peek_cons]
  cases hkey with
  | key hbefore hraw hafter =>
      obtain ⟨atKey, hskipped, hrest⟩ := hinside.split
      obtain ⟨afterKey, hstring, _⟩ := hrest.split
      have hquote := Scanner.StringText.peek hraw hstring
      have hskip : Scanner.skipWhitespace start.advance = atKey :=
        (Scanner.skipWhitespace_of_took hbefore hskipped).trans
          (Scanner.skipWhitespace_of_peek hquote rfl)
      have hnone : atKey.eat '\x7d' = none := eat_eq_none (by simp [hquote])
      obtain ⟨offset, hread⟩ := Scanner.key_of_took (.key .nil hraw hafter) hrest
      simp only [openObject, hskip, hnone, hread]
      rfl

theorem run_closeObject {outer : List Frame} {members : List (String × Json)} {key : String}
    {last : Json} {start stop : Scanner} {after : List Char} (hafter : Blank after)
    (htook : Took start (after ++ ['\x7d']) stop) :
    loop.run ⟨.object (.holding members key) :: outer, .holds last, start⟩ =
      loop.run ⟨outer, .holds (.object (members ++ [(key, last)])), stop⟩ := by
  obtain ⟨middle, hskipped, hbrace⟩ := htook.split
  rw [run_holds_blank hafter hskipped]
  apply run_holds_next hbrace.peek_cons rfl
  rw [hold, holdInObject, eat_eq_none (by simp [hbrace.peek_cons]), eat_eq_some.mpr hbrace]
  rfl

theorem run_nextMember {outer : List Frame} {members : List (String × Json)}
    {key next : String} {last : Json} {start stop : Scanner} {after keyText : List Char}
    (hafter : Blank after) (hkey : KeyText keyText next)
    (hnew : next ∉ members.map Prod.fst ++ [key])
    (htook : Took start (after ++ (',' :: keyText)) stop) :
    loop.run ⟨.object (.holding members key) :: outer, .holds last, start⟩ =
      loop.run ⟨.object (.holding (members ++ [(key, last)]) next) :: outer, .expects, stop⟩ := by
  obtain ⟨middle, hskipped, hrest⟩ := htook.split
  rw [run_holds_blank hafter hskipped]
  apply run_holds_next hrest.peek_cons rfl
  obtain ⟨offset, hread⟩ := Scanner.key_of_took hkey hrest.advance_cons
  rw [hold, holdInObject, eat_of_took hrest]
  simp only [hread, ObjectFrame.admitKey_take, if_neg hnew]

/-! ## Whole texts -/

/-- A text of a shape moves the scan past it. -/
def Runs (text : List Char) : Shape → Prop
  | .value value => value.NoRepeat → ∀ (frames : List Frame) (start stop : Scanner),
      Took start text stop → stop.Halts Scanner.continuesNumber →
        loop.run ⟨frames, .expects, start⟩ = loop.run ⟨frames, .holds value, stop⟩
  | .items items => (∀ item ∈ items, item.NoRepeat) →
      ∀ (outer : List Frame) (start stop : Scanner), Took start text stop →
        loop.run ⟨.array [] :: outer, .expects, start⟩ =
          loop.run ⟨.array items :: outer, .expects, stop⟩
  | .members members => (∀ member ∈ members, member.2.NoRepeat) →
      ∀ (keyText : List Char) (key : String), KeyText keyText key →
        (members.map Prod.fst ++ [key]).Nodup →
          ∀ (outer : List Frame) (start stop : Scanner),
            Took start ('\x7b' :: (text ++ keyText)) stop →
              loop.run ⟨outer, .expects, start⟩ =
                loop.run ⟨.object (.holding members key) :: outer, .expects, stop⟩

theorem runs_literal {frames : List Frame} {start stop : Scanner} {first : Char}
    {rest : List Char} {value : Json} (htook : Took start (first :: rest) stop)
    (hfirst : first = 't' ∨ first = 'f' ∨ first = 'n')
    (hscalar : Scanner.scalar start = start.literal (first :: rest) value) :
    loop.run ⟨frames, .expects, start⟩ = loop.run ⟨frames, .holds value, stop⟩ := by
  have hread := hscalar.trans (Scanner.literal_of_took htook value)
  rcases hfirst with rfl | rfl | rfl <;>
    exact run_scalar htook.peek_cons rfl (by decide) (by decide) hread

theorem runs_of_spells {text : List Char} {shape : Shape} (hspells : Spells text shape) :
    Runs text shape := by
  induction hspells with
  | literalNull =>
      intro _ frames start stop htook _
      exact runs_literal htook (by simp) (by simp only [Scanner.scalar, htook.peek_cons])
  | literalTrue =>
      intro _ frames start stop htook _
      exact runs_literal htook (by simp) (by simp only [Scanner.scalar, htook.peek_cons])
  | literalFalse =>
      intro _ frames start stop htook _
      exact runs_literal htook (by simp) (by simp only [Scanner.scalar, htook.peek_cons])
  | number number =>
      intro _ frames start stop htook hhalts
      obtain ⟨char, rest, htext, hchar⟩ := number.valid.head
      have hpeek : start.peek = some char := by
        rw [htext] at htook
        exact htook.peek_cons
      obtain ⟨hblank, hbracket, hbrace, _, hquote, ht, hf, hn⟩ := startsNumber_plain hchar
      apply run_scalar hpeek hblank hbracket hbrace
      rw [Scanner.scalar, hpeek]
      split
      next hsome => exact absurd (Option.some.inj hsome) hquote
      next hsome => exact absurd (Option.some.inj hsome) ht
      next hsome => exact absurd (Option.some.inj hsome) hf
      next hsome => exact absurd (Option.some.inj hsome) hn
      next other _ _ _ _ hsome =>
        cases Option.some.inj hsome
        rw [if_pos hchar, Scanner.number_of_took htook hhalts]
        rfl
      next hnone => cases hnone
  | string hraw =>
      intro _ frames start stop htook _
      have hquote := Scanner.StringText.peek hraw htook
      apply run_scalar hquote rfl (by decide) (by decide)
      rw [Scanner.scalar, hquote]
      simp only [Scanner.string_of_took hraw htook]
      rfl
  | emptyArray hblank =>
      intro _ frames start stop htook _
      obtain ⟨middle, hskipped, hbracket⟩ := htook.advance_cons.split
      have hskip : Scanner.skipWhitespace start.advance = middle :=
        (Scanner.skipWhitespace_of_took hblank hskipped).trans
          (Scanner.skipWhitespace_of_peek hbracket.peek_cons rfl)
      apply run_expects_next htook.peek_cons rfl
      rw [expect, htook.peek_cons]
      simp only [openArray, hskip, eat_eq_some.mpr hbracket]
  | array hitems hbefore hlast hafter ihItems ihLast =>
      intro hrepeat frames start stop htook _
      cases hrepeat with
      | array hrepeat =>
          obtain ⟨hnone, hone⟩ := List.forall_mem_append.mp hrepeat
          rw [run_openArray (hitems.leads rfl hbefore hlast) htook]
          obtain ⟨first, htext, hrest⟩ := htook.advance_cons.split
          obtain ⟨second, hspace, hrest⟩ := hrest.split
          obtain ⟨third, hinner, hrest⟩ := hrest.split
          rw [ihItems hnone frames _ _ htext, run_expects_blank hbefore hspace,
            ihLast (by simpa using hone) _ _ _ hinner (halts_of_took hafter hrest rfl),
            run_closeArray hafter hrest]
  | emptyObject hblank =>
      intro _ frames start stop htook _
      obtain ⟨middle, hskipped, hbrace⟩ := htook.advance_cons.split
      have hskip : Scanner.skipWhitespace start.advance = middle :=
        (Scanner.skipWhitespace_of_took hblank hskipped).trans
          (Scanner.skipWhitespace_of_peek hbrace.peek_cons rfl)
      apply run_expects_next htook.peek_cons rfl
      rw [expect, htook.peek_cons]
      simp only [openObject, hskip, eat_eq_some.mpr hbrace]
  | object hmembers hkey hbefore hlast hafter ihMembers ihLast =>
      intro hrepeat frames start stop htook _
      cases hrepeat with
      | object hkeys hrepeat =>
          obtain ⟨hnone, hone⟩ := List.forall_mem_append.mp hrepeat
          rw [← List.append_assoc, ← List.cons_append] at htook
          obtain ⟨first, htext, hrest⟩ := htook.split
          obtain ⟨second, hspace, hrest⟩ := hrest.split
          obtain ⟨third, hinner, hrest⟩ := hrest.split
          rw [ihMembers hnone _ _ hkey (by simpa using hkeys) _ _ _ htext,
            run_expects_blank hbefore hspace,
            ihLast (by simpa using hone) _ _ _ hinner (halts_of_took hafter hrest rfl),
            run_closeObject hafter hrest]
  | noItems =>
      intro _ outer start stop htook
      cases (Took.refl start).unique htook
      rfl
  | item hitems hbefore hlast hafter ihItems ihLast =>
      intro hrepeat outer start stop htook
      obtain ⟨hnone, hone⟩ := List.forall_mem_append.mp hrepeat
      obtain ⟨first, htext, hrest⟩ := htook.split
      obtain ⟨second, hspace, hrest⟩ := hrest.split
      obtain ⟨third, hinner, hrest⟩ := hrest.split
      rw [ihItems hnone outer _ _ htext, run_expects_blank hbefore hspace,
        ihLast (by simpa using hone) _ _ _ hinner (halts_of_took hafter hrest rfl),
        run_nextItem hafter hrest]
  | noMembers =>
      intro _ keyText key hkey _ outer start stop htook
      exact run_openObject hkey htook
  | member hmembers hkey hbefore hlast hafter ihMembers ihLast =>
      rename_i text keyText before inner after members key last
      intro hrepeat nextText next hnext hkeys outer start stop htook
      obtain ⟨hnone, hone⟩ := List.forall_mem_append.mp hrepeat
      have hdistinct : ((members.map Prod.fst ++ [key]) ++ [next]).Nodup := by
        simpa [List.map_append] using hkeys
      obtain ⟨hheld, hnew⟩ : (members.map Prod.fst ++ [key]).Nodup ∧
          next ∉ members.map Prod.fst ++ [key] := by
        rw [List.nodup_append] at hdistinct
        exact ⟨hdistinct.1, fun hmem => hdistinct.2.2 next hmem next (by simp) rfl⟩
      have hparts : Took start (('\x7b' :: (text ++ keyText)) ++
          (before ++ (inner ++ (after ++ (',' :: nextText))))) stop := by
        simpa [List.append_assoc] using htook
      obtain ⟨first, htext, hrest⟩ := hparts.split
      obtain ⟨second, hspace, hrest⟩ := hrest.split
      obtain ⟨third, hinner, hrest⟩ := hrest.split
      rw [ihMembers hnone _ _ hkey hheld _ _ _ htext, run_expects_blank hbefore hspace,
        ihLast (by simpa using hone) _ _ _ hinner (halts_of_took hafter hrest rfl),
        run_nextMember hafter hnext hnew hrest]

theorem document_of_text {text : List Char} {value : Json} (htext : DocumentText text value)
    (hrepeat : value.NoRepeat) : Scanner.document ⟨text, 0⟩ = .ok value := by
  cases htext with
  | document hbefore hvalue hafter =>
      rename_i before text after
      have htook : Took ⟨before ++ (text ++ after), 0⟩ (before ++ (text ++ after))
          ⟨[], 0 + Utf8.size (before ++ (text ++ after))⟩ := ⟨by rw [List.append_nil], rfl⟩
      obtain ⟨first, hspace, hrest⟩ := htook.split
      obtain ⟨second, hinner, hrest⟩ := hrest.split
      have hhalts : second.Halts Scanner.continuesNumber := by
        intro char hpeek
        have hrest := hrest.rest
        rw [List.append_nil] at hrest
        rw [peek, hrest] at hpeek
        exact continuesNumber_of_isBlank (hafter char (List.mem_of_mem_head? hpeek))
      rw [Scanner.document, run_expects_blank hbefore hspace,
        runs_of_spells hvalue hrepeat _ _ _ hinner hhalts, run_holds_blank hafter hrest]
      exact Loop.run_of_result rfl

end Scan

end Plasmosome.Reply
