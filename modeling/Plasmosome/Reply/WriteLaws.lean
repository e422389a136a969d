import Plasmosome.Reply.Write

/-!
# What the writer writes

The loop writes what the recursive printer prints. The only terminal controls in
it are the line breaks of the layout, and the compact text spells its value.
-/

namespace Plasmosome.Reply

open Foundation Backend Manifest

variable {style : Style} {depth : Nat}

/-! ## The layout of the loop -/

/-- The loop's separator is a comma, except before the first item, and a line break. -/
theorem separator_eq (first : Bool) :
    separator first style depth = (if first then [] else [',']) ++ lineBreak depth style := by
  cases style with
  | compact => rfl
  | human =>
      have hspaces : (List.replicate (min depth maxIndent) [' ', ' ']).flatten =
          List.replicate (2 * min depth 32) ' ' := by
        have hpairs : (List.replicate (min depth 32) (List.replicate 2 ' ')).flatten =
            List.replicate (min depth 32 * 2) ' ' := List.flatten_replicate_replicate
        rw [Nat.mul_comm]
        exact hpairs
      rw [separator, hspaces, lineBreak]

/-- The loop's closing bracket comes after a line break. -/
theorem closeContainer_eq (close : Char) :
    closeContainer close style depth = lineBreak depth style ++ [close] := by
  cases style with
  | compact => rfl
  | human =>
      rw [closeContainer, separator_eq]
      rfl

theorem writeKey_eq (key : String) : writeKey key style = writeString key style ++ colon style := by
  cases style <;> rfl

namespace Writer

/-! ## The loop prints -/

/-- A value is written where the loop stands, and the levels around it are left alone. -/
def Prints (style : Style) (depth : Nat) (value : Json) : Prop :=
  ∀ out levels, (loop style depth).run ⟨out, levels, some value⟩ =
    (loop style depth).run ⟨out ++ print style (depth + levels.length) value, levels, none⟩

/-- A value that is begun at once is written at once. -/
theorem prints_of_begin {value : Json}
    (hbegin : ∀ out levels, begin ⟨out, levels, some value⟩ style value =
      ⟨out ++ print style (depth + levels.length) value, levels, none⟩) :
    Prints style depth value := by
  intro out levels
  apply Loop.run_eq_of_step_eq
  simp only [loop, step, begun, hbegin]

/-- An array goes on with its next item. -/
theorem run_nextItem {out : List Char} {items : List Json} {index : Nat} {outer : List Level}
    {value : Json} (hitem : items[index]? = some value) :
    (loop style depth).run ⟨out, ⟨.items items, index⟩ :: outer, none⟩ =
      (loop style depth).run ⟨out ++ separator (index == 0) style (depth + (outer.length + 1)),
        ⟨.items items, index + 1⟩ :: outer, some value⟩ := by
  apply Loop.run_of_next
  simp [loop, step, begun, advance, Level.item, hitem]

/-- An array is closed after its last item. -/
theorem run_closeItems {out : List Char} {items : List Json} {index : Nat} {outer : List Level}
    (hitem : items[index]? = none) :
    (loop style depth).run ⟨out, ⟨.items items, index⟩ :: outer, none⟩ =
      (loop style depth).run ⟨out ++ closeContainer ']' style (depth + outer.length), outer,
      none⟩ := by
  apply Loop.run_of_next
  simp [loop, step, begun, advance, Level.item, Level.close, hitem]

/-- An object goes on with its next member. -/
theorem run_nextMember {out : List Char} {members : List (String × Json)} {index : Nat}
    {outer : List Level} {key : String} {value : Json}
    (hmember : members[index]? = some (key, value)) :
    (loop style depth).run ⟨out, ⟨.members members, index⟩ :: outer, none⟩ =
      (loop style depth).run ⟨out ++ (separator (index == 0) style (depth + (outer.length + 1)) ++
        writeKey key style), ⟨.members members, index + 1⟩ :: outer, some value⟩ := by
  apply Loop.run_of_next
  simp [loop, step, begun, advance, Level.item, hmember]

/-- An object is closed after its last member. -/
theorem run_closeMembers {out : List Char} {members : List (String × Json)} {index : Nat}
    {outer : List Level} (hmember : members[index]? = none) :
    (loop style depth).run ⟨out, ⟨.members members, index⟩ :: outer, none⟩ =
      (loop style depth).run
        ⟨out ++ closeContainer '\x7d' style (depth + outer.length), outer, none⟩ := by
  apply Loop.run_of_next
  simp [loop, step, begun, advance, Level.item, Level.close, hmember]

/-- An open array is written from the item it stands at to its bracket. -/
theorem run_items {items : List Json} (hprints : ∀ item ∈ items, Prints style depth item)
    (rest : List Json) (index : Nat) (hrest : items.drop index = rest) (out : List Char)
    (outer : List Level) :
    (loop style depth).run ⟨out, ⟨.items items, index⟩ :: outer, none⟩ =
      (loop style depth).run
        ⟨out ++ (printItems style (depth + (outer.length + 1)) (index == 0) rest ++
          closeContainer ']' style (depth + outer.length)), outer, none⟩ := by
  induction rest generalizing index out with
  | nil =>
      rw [List.drop_eq_nil_iff, ← List.getElem?_eq_none_iff] at hrest
      rw [run_closeItems hrest, printItems, List.nil_append]
  | cons item rest ih =>
      have hitem : items[index]? = some item := by
        rw [← List.head?_drop, hrest, List.head?_cons]
      have hnext : items.drop (index + 1) = rest := by
        rw [← List.tail_drop, hrest, List.tail_cons]
      rw [run_nextItem hitem, hprints item (List.mem_of_getElem? hitem), ih (index + 1) hnext]
      simp [printItems, separator_eq, List.append_assoc]

/-- An open object is written from the member it stands at to its brace. -/
theorem run_members {members : List (String × Json)}
    (hprints : ∀ key value, (key, value) ∈ members → Prints style depth value)
    (rest : List (String × Json)) (index : Nat) (hrest : members.drop index = rest)
    (out : List Char) (outer : List Level) :
    (loop style depth).run ⟨out, ⟨.members members, index⟩ :: outer, none⟩ =
      (loop style depth).run
        ⟨out ++ (printMembers style (depth + (outer.length + 1)) (index == 0) rest ++
          closeContainer '\x7d' style (depth + outer.length)), outer, none⟩ := by
  induction rest generalizing index out with
  | nil =>
      rw [List.drop_eq_nil_iff, ← List.getElem?_eq_none_iff] at hrest
      rw [run_closeMembers hrest, printMembers, List.nil_append]
  | cons member rest ih =>
      rcases member with ⟨key, value⟩
      have hmember : members[index]? = some (key, value) := by
        rw [← List.head?_drop, hrest, List.head?_cons]
      have hnext : members.drop (index + 1) = rest := by
        rw [← List.tail_drop, hrest, List.tail_cons]
      rw [run_nextMember hmember, hprints key value (List.mem_of_getElem? hmember),
        ih (index + 1) hnext]
      simp [printMembers, separator_eq, writeKey_eq, List.append_assoc]

/-- Every value is written where the loop stands, by induction on its tree. -/
theorem prints (style : Style) (depth : Nat) (value : Json) : Prints style depth value := by
  induction value using Json.tree_induction with
  | hnull => exact prints_of_begin fun _ _ => rfl
  | hbool value =>
      cases value with
      | true => exact prints_of_begin fun _ _ => rfl
      | false => exact prints_of_begin fun _ _ => rfl
  | hnumber number => exact prints_of_begin fun _ _ => rfl
  | hstring text => exact prints_of_begin fun _ _ => rfl
  | harray items ih =>
      cases items with
      | nil => exact prints_of_begin fun _ _ => rfl
      | cons first rest =>
          intro out levels
          have hopen : (loop style depth).run ⟨out, levels, some (.array (first :: rest))⟩ =
              (loop style depth).run
                ⟨out ++ ['['], ⟨.items (first :: rest), 0⟩ :: levels, none⟩ :=
            Loop.run_eq_of_step_eq rfl
          rw [hopen, run_items ih _ 0 rfl]
          simp [print, closeContainer_eq, List.append_assoc, Nat.add_assoc]
  | hobject members ih =>
      cases members with
      | nil => exact prints_of_begin fun _ _ => rfl
      | cons first rest =>
          intro out levels
          have hopen : (loop style depth).run ⟨out, levels, some (.object (first :: rest))⟩ =
              (loop style depth).run
                ⟨out ++ ['\x7b'], ⟨.members (first :: rest), 0⟩ :: levels, none⟩ :=
            Loop.run_eq_of_step_eq rfl
          rw [hopen, run_members ih _ 0 rfl]
          simp [print, closeContainer_eq, List.append_assoc, Nat.add_assoc]

end Writer

/-- The loop writes what the recursive printer prints. -/
theorem writeValue_eq_print (out : List Char) (value : Json) (style : Style) (depth : Nat) :
    writeValue out value style depth = out ++ print style depth value := by
  rw [writeValue, Writer.prints style depth value out []]
  exact Loop.run_of_result rfl

/-! ## Terminal controls -/

/-- The code points that drive a terminal. -/
def terminalControls : List Nat :=
  List.range 0x20 ++ List.range' 0x7f 33 ++ [0x061c, 0x200e, 0x200f] ++ List.range' 0x202a 5 ++
    List.range' 0x2066 4

theorem mem_terminalControls {character : Char} (hcontrol : isTerminalControl character) :
    character.toNat ∈ terminalControls := by
  simp only [isTerminalControl, Bool.or_eq_true, Bool.and_eq_true, decide_eq_true_eq] at hcontrol
  simp only [terminalControls, List.mem_append, List.mem_range, List.mem_range'_1,
    List.mem_cons, List.not_mem_nil, or_false]
  omega

def fourHexDigits (code : Nat) : Bool :=
  match (hexDigits 4 code).toList.map fun digit => (digit, hexValue? digit) with
  | [(_, some a), (_, some b), (_, some c), (_, some d)] =>
      ((a * 16 + b) * 16 + c) * 16 + d = code
  | _ => false

/-- The digits that stand for a control are no controls. -/
theorem terminalControls_hex : terminalControls.all fun code =>
    fourHexDigits code && (hexDigits 4 code).toList.all (fun digit => !isTerminalControl digit) &&
      (upperHexDigits 4 code).all (fun digit => !isTerminalControl digit) := by
  decide +kernel

/-- How many line breaks a separator or a closing bracket writes. -/
def Style.breaks : Style → Nat
  | .compact => 0
  | .human => 1

mutual

/-- How many line breaks the layout of a value writes. -/
def layoutBreaks (style : Style) : Json → Nat
  | .array (first :: rest) => itemBreaks style (first :: rest) + style.breaks
  | .object (first :: rest) => memberBreaks style (first :: rest) + style.breaks
  | _ => 0

def itemBreaks (style : Style) : List Json → Nat
  | [] => 0
  | item :: rest => style.breaks + layoutBreaks style item + itemBreaks style rest

def memberBreaks (style : Style) : List (String × Json) → Nat
  | [] => 0
  | (_, value) :: rest => style.breaks + layoutBreaks style value + memberBreaks style rest

end

/-- The controls of a text are exactly this many line breaks. -/
def Breaks (text : List Char) (count : Nat) : Prop :=
  text.filter isTerminalControl = List.replicate count '\n'

/-- The line breaks of two texts add up. -/
theorem Breaks.append {first second : List Char} {before after : Nat}
    (hfirst : Breaks first before) (hsecond : Breaks second after) :
    Breaks (first ++ second) (before + after) := by
  rw [Breaks, List.filter_append, hfirst, hsecond, List.replicate_append_replicate]

theorem breaks_zero_iff {text : List Char} :
    Breaks text 0 ↔ ∀ char ∈ text, isTerminalControl char = false := by
  simp [Breaks, List.filter_eq_nil_iff]

/-- A separator has the line break of its style and no other control. -/
theorem separator_breaks (first : Bool) (style : Style) (depth : Nat) :
    Breaks (separator first style depth) style.breaks := by
  have hcomma : Breaks (if first then [] else [',']) 0 := by
    cases first <;> rfl
  have hlayout : Breaks (match style with
      | .compact => []
      | .human => '\n' :: (List.replicate (min depth maxIndent) [' ', ' ']).flatten)
      style.breaks := by
    cases style with
    | compact => rfl
    | human =>
        have hspaces : ((List.replicate (min depth maxIndent) [' ', ' ']).flatten).filter
            isTerminalControl = [] := by
          rw [List.filter_eq_nil_iff]
          intro char hchar
          obtain ⟨pair, hpair, hmem⟩ := List.mem_flatten.mp hchar
          rw [List.eq_of_mem_replicate hpair] at hmem
          have hspace : char = ' ' := by simpa using hmem
          rw [hspace]
          decide
        rw [Breaks, List.filter_cons_of_pos (by decide), hspaces]
        rfl
  have hboth := hcomma.append hlayout
  rwa [Nat.zero_add] at hboth

theorem closeContainer_breaks {close : Char} (hclose : isTerminalControl close = false)
    (style : Style) (depth : Nat) : Breaks (closeContainer close style depth) style.breaks := by
  have hbracket : Breaks [close] 0 := by
    simpa [breaks_zero_iff] using hclose
  cases style with
  | compact => exact hbracket
  | human => exact (separator_breaks true .human depth).append hbracket

theorem writeControl_breaks {control : Char} (hcontrol : isTerminalControl control)
    (style : Style) : Breaks (writeControl control style) 0 := by
  have hhex := List.all_eq_true.mp terminalControls_hex _ (mem_terminalControls hcontrol)
  simp only [Bool.and_eq_true, List.all_eq_true, Bool.not_eq_true'] at hhex
  obtain ⟨⟨_, hlower⟩, hupper⟩ := hhex
  rw [breaks_zero_iff]
  intro char hchar
  cases style with
  | compact =>
      simp only [writeControl, List.mem_cons] at hchar
      rcases hchar with rfl | rfl | hdigit
      · decide
      · decide
      · exact hlower char hdigit
  | human =>
      simp only [writeControl, List.mem_cons, List.mem_append, List.not_mem_nil, or_false] at hchar
      rcases hchar with rfl | rfl | rfl | hdigit | rfl
      · decide
      · decide
      · decide
      · exact hupper char hdigit
      · decide

/-- A string has no control, whatever its characters. -/
theorem writeString_breaks (text : String) (style : Style) : Breaks (writeString text style) 0 := by
  rw [breaks_zero_iff]
  intro char hchar
  simp only [writeString, List.mem_cons, List.mem_append, List.mem_flatMap, List.not_mem_nil,
    or_false] at hchar
  rcases hchar with rfl | ⟨written, _, hchar⟩ | rfl
  · decide
  · rw [writeChar] at hchar
    split at hchar
    next hescaped =>
      simp only [List.mem_cons, List.not_mem_nil, or_false] at hchar
      rcases hescaped with rfl | rfl <;> rcases hchar with rfl | rfl <;> decide
    next =>
      split at hchar
      next hcontrol => exact breaks_zero_iff.mp (writeControl_breaks hcontrol style) char hchar
      next hplain =>
        rw [List.mem_singleton] at hchar
        rw [hchar]
        simpa using hplain
  · decide

theorem writeKey_breaks (key : String) (style : Style) : Breaks (writeKey key style) 0 := by
  have hcolon : Breaks (':' :: (if style = .human then [' '] else [])) 0 := by
    cases style <;> rfl
  exact (writeString_breaks key style).append hcolon

theorem isTerminalControl_of_isDigit {char : Char} (hdigit : char.isDigit) :
    isTerminalControl char = false := by
  simp only [Char.isDigit, Bool.and_eq_true, decide_eq_true_eq, UInt32.le_iff_toNat_le] at hdigit
  have hcode : char.toNat = char.val.toNat := rfl
  have hzero : ('0' : Char).val.toNat = 48 := rfl
  have hnine : ('9' : Char).val.toNat = 57 := rfl
  rw [Bool.eq_false_iff]
  intro hcontrol
  simp only [isTerminalControl, Bool.or_eq_true, Bool.and_eq_true, decide_eq_true_eq] at hcontrol
  omega

/-- A character of a number is a digit, a sign, a point or an exponent's mark. -/
theorem NumberText.mem {text : List Char} (htext : NumberText text) {char : Char}
    (hchar : char ∈ text) :
    char.isDigit ∨ char = '-' ∨ char = '+' ∨ char = '.' ∨ char = 'e' ∨ char = 'E' := by
  cases htext with
  | number hsign hinteger hfraction hexponent =>
      rcases List.mem_append.mp hchar with hmem | hmem
      · rcases hsign with rfl | rfl
        · cases hmem
        · exact .inr (.inl (List.mem_singleton.mp hmem))
      rcases List.mem_append.mp hmem with hmem | hmem
      · cases hinteger with
        | zero =>
            rw [List.mem_singleton] at hmem
            subst hmem
            exact .inl rfl
        | digits hfirst _ hrest =>
            rcases List.mem_cons.mp hmem with rfl | hmem
            · exact .inl hfirst
            · exact .inl (hrest char hmem)
      rcases List.mem_append.mp hmem with hmem | hmem
      · cases hfraction with
        | absent => cases hmem
        | present hdigits =>
            rcases List.mem_cons.mp hmem with rfl | hmem
            · simp
            · exact .inl (hdigits.2 char hmem)
      · cases hexponent with
        | absent => cases hmem
        | present hmark hsign hdigits =>
            rcases List.mem_cons.mp hmem with rfl | hmem
            · rcases hmark with rfl | rfl <;> simp
            rcases List.mem_append.mp hmem with hmem | hmem
            · rcases hsign with rfl | rfl | rfl
              · cases hmem
              · rw [List.mem_singleton] at hmem
                simp [hmem]
              · rw [List.mem_singleton] at hmem
                simp [hmem]
            · exact .inl (hdigits.2 char hmem)

theorem writeNumber_breaks (number : Number) : Breaks (writeNumber number) 0 := by
  rw [breaks_zero_iff]
  intro char hchar
  rcases number.valid.mem hchar with hdigit | rfl | rfl | rfl | rfl | rfl
  · exact isTerminalControl_of_isDigit hdigit
  all_goals decide

theorem printItems_breaks {items : List Json} (style : Style)
    (hitems : ∀ item ∈ items, ∀ depth, Breaks (print style depth item) (layoutBreaks style item))
    (depth : Nat) (first : Bool) :
    Breaks (printItems style depth first items) (itemBreaks style items) := by
  induction items generalizing first with
  | nil => rfl
  | cons item rest ih =>
      rw [printItems, ← List.append_assoc, ← separator_eq, itemBreaks, Nat.add_assoc]
      exact (separator_breaks first style depth).append
        ((hitems item List.mem_cons_self depth).append
          (ih (fun other hother => hitems other (List.mem_cons_of_mem _ hother)) false))

theorem printMembers_breaks {members : List (String × Json)} (style : Style)
    (hmembers : ∀ key value, (key, value) ∈ members →
      ∀ depth, Breaks (print style depth value) (layoutBreaks style value))
    (depth : Nat) (first : Bool) :
    Breaks (printMembers style depth first members) (memberBreaks style members) := by
  induction members generalizing first with
  | nil => rfl
  | cons member rest ih =>
      rcases member with ⟨key, value⟩
      rw [printMembers, ← List.append_assoc, ← separator_eq, ← writeKey_eq, memberBreaks,
        Nat.add_assoc]
      have hrest := ih (fun other written hother =>
        hmembers other written (List.mem_cons_of_mem _ hother)) false
      have hvalue := (hmembers key value List.mem_cons_self depth).append hrest
      have hkey := (writeKey_breaks key style).append hvalue
      rw [Nat.zero_add] at hkey
      exact (separator_breaks first style depth).append hkey

/-- The controls in a value's text are the line breaks of its layout. -/
theorem print_breaks (style : Style) (value : Json) (depth : Nat) :
    Breaks (print style depth value) (layoutBreaks style value) := by
  induction value using Json.tree_induction generalizing depth with
  | hnull => rfl
  | hbool value => cases value <;> rfl
  | hnumber number => exact writeNumber_breaks number
  | hstring text => exact writeString_breaks text style
  | harray items ih =>
      cases items with
      | nil => rfl
      | cons first rest =>
          have hbracket : Breaks ['['] 0 := rfl
          have hitems := printItems_breaks style ih (depth + 1) true
          have hclose :=
            closeContainer_breaks (by decide : isTerminalControl ']' = false) style depth
          have hall := hbracket.append (hitems.append hclose)
          rw [Nat.zero_add] at hall
          rw [print, ← closeContainer_eq, layoutBreaks]
          exact hall
  | hobject members ih =>
      cases members with
      | nil => rfl
      | cons first rest =>
          have hbrace : Breaks ['\x7b'] 0 := rfl
          have hmembers := printMembers_breaks style ih (depth + 1) true
          have hclose :=
            closeContainer_breaks (by decide : isTerminalControl '\x7d' = false) style depth
          have hall := hbrace.append (hmembers.append hclose)
          rw [Nat.zero_add] at hall
          rw [print, ← closeContainer_eq, layoutBreaks]
          exact hall

/-- The compact layout breaks no line. -/
theorem layoutBreaks_compact (value : Json) : layoutBreaks .compact value = 0 := by
  induction value using Json.tree_induction with
  | harray items ih =>
      have hitems : ∀ items : List Json, (∀ item ∈ items, layoutBreaks .compact item = 0) →
          itemBreaks .compact items = 0 := by
        intro items hitems
        induction items with
        | nil => rfl
        | cons item rest ihRest =>
            rw [itemBreaks, hitems item List.mem_cons_self,
              ihRest fun other hother => hitems other (List.mem_cons_of_mem _ hother)]
            rfl
      cases items with
      | nil => rfl
      | cons first rest => rw [layoutBreaks, hitems _ ih]; rfl
  | hobject members ih =>
      have hmembers : ∀ members : List (String × Json),
          (∀ key value, (key, value) ∈ members → layoutBreaks .compact value = 0) →
            memberBreaks .compact members = 0 := by
        intro members hmembers
        induction members with
        | nil => rfl
        | cons member rest ihRest =>
            rcases member with ⟨key, value⟩
            rw [memberBreaks, hmembers key value List.mem_cons_self,
              ihRest fun other written hother =>
                hmembers other written (List.mem_cons_of_mem _ hother)]
            rfl
      cases members with
      | nil => rfl
      | cons first rest => rw [layoutBreaks, hmembers _ ih]; rfl
  | _ => rfl

/-- No character of a value reaches the terminal as a control: the loop writes what the recursive
printer prints, and its only controls are the breaks of the human layout. -/
theorem writer_prints_without_controls (value : Json) :
    (∀ out style depth, writeValue out value style depth = out ++ print style depth value) ∧
      (∀ char ∈ (writeCompact value).toList, isTerminalControl char = false) ∧
      (writeHuman value).toList.filter isTerminalControl =
        List.replicate (layoutBreaks .human value) '\n' ∧
      (∀ text style, ∀ char ∈ writeString text style, isTerminalControl char = false) ∧
      ∀ number, ∀ char ∈ writeNumber number, isTerminalControl char = false := by
  refine ⟨fun out style depth => writeValue_eq_print out value style depth, ?_, ?_, ?_, ?_⟩
  · have hcompact := print_breaks .compact value 0
    rw [layoutBreaks_compact, breaks_zero_iff] at hcompact
    rwa [writeCompact, String.toList_ofList, writeValue_eq_print, List.nil_append]
  · rw [writeHuman, String.toList_ofList, writeValue_eq_print, List.nil_append]
    exact print_breaks .human value 0
  · intro text style
    exact breaks_zero_iff.mp (writeString_breaks text style)
  · intro number
    exact breaks_zero_iff.mp (writeNumber_breaks number)

/-! ## The compact text spells the value -/

/-- A character is spelled as it is written. -/
theorem charText_writeChar (char : Char) : CharText (writeChar .compact char) char := by
  rw [writeChar]
  split
  next hescaped =>
    rcases hescaped with rfl | rfl
    · exact .simple rfl
    · exact .simple rfl
  next hplain =>
    push Not at hplain
    split
    next hcontrol =>
      have hhex := List.all_eq_true.mp terminalControls_hex _ (mem_terminalControls hcontrol)
      simp only [Bool.and_eq_true, fourHexDigits] at hhex
      obtain ⟨⟨hfour, _⟩, _⟩ := hhex
      apply CharText.unit
      split at hfour
      next a' a b' b c' c d' d hdigits =>
        obtain ⟨first, rest, hrest, hfirst, hdigits⟩ := List.map_eq_cons_iff.mp hdigits
        obtain ⟨second, rest, rfl, hsecond, hdigits⟩ := List.map_eq_cons_iff.mp hdigits
        obtain ⟨third, rest, rfl, hthird, hdigits⟩ := List.map_eq_cons_iff.mp hdigits
        obtain ⟨fourth, rest, rfl, hfourth, hdigits⟩ := List.map_eq_cons_iff.mp hdigits
        rw [List.map_eq_nil_iff] at hdigits
        subst hdigits
        rw [hrest, ← of_decide_eq_true hfour]
        exact .four (Prod.mk.inj hfirst).2 (Prod.mk.inj hsecond).2 (Prod.mk.inj hthird).2
          (Prod.mk.inj hfourth).2
      next => cases hfour
    next hcontrol =>
      refine .plain hplain.1 hplain.2 ?_
      simp only [isTerminalControl, Bool.or_eq_true, Bool.and_eq_true,
        decide_eq_true_eq] at hcontrol
      omega

/-- A string is spelled as it is written. -/
theorem stringText_writeString (text : String) : StringText (writeString text .compact) text := by
  have hchars : ∀ chars : List Char,
      CharsText (chars.flatMap (writeChar .compact)) chars := by
    intro chars
    induction chars with
    | nil => exact .nil
    | cons char rest ih =>
        rw [List.flatMap_cons]
        exact .cons (charText_writeChar char) ih
  exact .quoted (hchars text.toList)

theorem keyText_writeKey (key : String) : KeyText (writeKey key .compact) key := by
  have hkey := KeyText.key Blank.nil (stringText_writeString key) Blank.nil
  exact hkey

/-- The items that follow one already printed. -/
theorem spells_printItems (depth : Nat) (rest : List Json)
    (hrest : ∀ item ∈ rest, Spells (print .compact depth item) (.value item))
    {text inner : List Char}
    {items : List Json} {last : Json} (hitems : Spells text (.items items))
    (hlast : Spells inner (.value last)) :
    Spells ('[' :: (text ++ (inner ++ (printItems .compact depth false rest ++ [']']))))
      (.value (.array (items ++ last :: rest))) := by
  induction rest generalizing text inner items last with
  | nil =>
      have harray := hitems.array Blank.nil hlast Blank.nil
      simpa [printItems] using harray
  | cons item rest ih =>
      have hmore := ih (fun other hother => hrest other (List.mem_cons_of_mem _ hother))
        (hitems.item Blank.nil hlast Blank.nil) (hrest item List.mem_cons_self)
      simpa [printItems, lineBreak, List.append_assoc] using hmore

theorem spells_printMembers (depth : Nat) (rest : List (String × Json))
    (hrest : ∀ key value, (key, value) ∈ rest →
      Spells (print .compact depth value) (.value value)) {text keyText inner : List Char}
    {members : List (String × Json)} {key : String} {last : Json}
    (hmembers : Spells text (.members members)) (hkey : KeyText keyText key)
    (hlast : Spells inner (.value last)) :
    Spells ('\x7b' :: (text ++ (keyText ++ (inner ++
        (printMembers .compact depth false rest ++ ['\x7d'])))))
      (.value (.object (members ++ (key, last) :: rest))) := by
  induction rest generalizing text keyText inner members key last with
  | nil =>
      have hobject := hmembers.object hkey Blank.nil hlast Blank.nil
      simpa [printMembers] using hobject
  | cons member rest ih =>
      rcases member with ⟨next, value⟩
      have hmore := ih (fun other written hother => hrest other written (List.mem_cons_of_mem _ hother))
        (hmembers.member hkey Blank.nil hlast Blank.nil) (keyText_writeKey next)
        (hrest next value List.mem_cons_self)
      simpa [printMembers, lineBreak, writeKey_eq, List.append_assoc] using hmore

/-- The compact text of a value spells it. -/
theorem spells_print (value : Json) (depth : Nat) :
    Spells (print .compact depth value) (.value value) := by
  induction value using Json.tree_induction generalizing depth with
  | hnull => exact .literalNull
  | hbool value =>
      cases value with
      | true => exact .literalTrue
      | false => exact .literalFalse
  | hnumber number => exact .number number
  | hstring text => exact .string (stringText_writeString text)
  | harray items ih =>
      cases items with
      | nil => exact .emptyArray Blank.nil
      | cons first rest =>
          have hall := spells_printItems (depth + 1) rest
            (fun item hitem => ih item (List.mem_cons_of_mem _ hitem) _) .noItems
            (ih first List.mem_cons_self (depth + 1))
          simpa [print, printItems, lineBreak, List.append_assoc] using hall
  | hobject members ih =>
      cases members with
      | nil => exact .emptyObject Blank.nil
      | cons member rest =>
          rcases member with ⟨key, value⟩
          have hall := spells_printMembers (depth + 1) rest
            (fun other written hother => ih other written (List.mem_cons_of_mem _ hother) _)
            .noMembers (keyText_writeKey key) (ih key value List.mem_cons_self (depth + 1))
          simpa [print, printMembers, lineBreak, writeKey_eq, List.append_assoc] using hall

end Plasmosome.Reply
