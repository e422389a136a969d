import Plasmosome.Reply.Grammar

/-!
# Open brackets

Every text of the grammar closes the brackets it opens, and never one it did not open.
So an object's text is no document before its last character.
-/

namespace Plasmosome.Reply

/-- Where a text stands: outside of strings, in one, or after a backslash in one. -/
inductive Within where
  | tokens
  | string
  | escape
deriving DecidableEq

/-- How many brackets are open, and where the text stands. -/
structure Opening where
  depth : Nat
  within : Within
deriving DecidableEq

def Opening.turn (opening : Opening) (char : Char) : Opening :=
  match opening.within with
  | .escape => { opening with within := .string }
  | .string =>
      if char = '"' then { opening with within := .tokens }
      else if char = '\\' then { opening with within := .escape }
      else opening
  | .tokens =>
      if char = '"' then { opening with within := .string }
      else if char = '[' ∨ char = '\x7b' then { opening with depth := opening.depth + 1 }
      else if char = ']' ∨ char = '\x7d' then { opening with depth := opening.depth - 1 }
      else opening

def Opening.after (opening : Opening) (text : List Char) : Opening := text.foldl turn opening

@[simp] theorem Opening.after_nil (opening : Opening) : opening.after [] = opening := rfl

@[simp] theorem Opening.after_cons (opening : Opening) (char : Char) (rest : List Char) :
    opening.after (char :: rest) = (opening.turn char).after rest := rfl

@[simp] theorem Opening.after_append (opening : Opening) (first second : List Char) :
    opening.after (first ++ second) = (opening.after first).after second := List.foldl_append

/-- A text that leaves an opening as it was, and closes none of its brackets on the way. -/
structure Keeps (opening : Opening) (text : List Char) : Prop where
  settled : opening.after text = opening
  sane : ∀ cut, cut <+: text → opening.depth ≤ (opening.after cut).depth

namespace Keeps

variable {opening : Opening}

theorem nil : Keeps opening [] := by
  refine ⟨rfl, fun cut hcut => ?_⟩
  rw [List.prefix_nil.mp hcut]
  exact le_rfl

theorem append {first second : List Char} (hfirst : Keeps opening first)
    (hsecond : Keeps opening second) : Keeps opening (first ++ second) := by
  refine ⟨by rw [Opening.after_append, hfirst.settled, hsecond.settled], fun cut hcut => ?_⟩
  rcases List.prefix_or_prefix_of_prefix hcut (List.prefix_append first second) with hwithin | hpast
  · exact hfirst.sane cut hwithin
  · obtain ⟨rest, rfl⟩ := hpast
    rw [List.prefix_append_right_inj] at hcut
    rw [Opening.after_append, hfirst.settled]
    exact hsecond.sane rest hcut

theorem singleton {char : Char} (hchar : opening.turn char = opening) : Keeps opening [char] := by
  refine ⟨hchar, fun cut hcut => ?_⟩
  rcases List.prefix_cons_iff.mp hcut with rfl | ⟨rest, rfl, hrest⟩
  · exact le_rfl
  · rw [List.prefix_nil.mp hrest, Opening.after_cons, hchar]
    exact le_rfl

theorem cons {char : Char} {rest : List Char} (hchar : opening.turn char = opening)
    (hrest : Keeps opening rest) : Keeps opening (char :: rest) :=
  (singleton hchar).append hrest

theorem all {text : List Char} (htext : ∀ char ∈ text, opening.turn char = opening) :
    Keeps opening text := by
  induction text with
  | nil => exact nil
  | cons char rest ih =>
      obtain ⟨hchar, hrest⟩ := List.forall_mem_cons.mp htext
      exact cons hchar (ih hrest)

/-- A text between two characters that undo one another. -/
theorem enclosed {inner : Opening} {first last : Char} {text : List Char}
    (hfirst : opening.turn first = inner) (hdepth : opening.depth ≤ inner.depth)
    (htext : Keeps inner text) (hlast : inner.turn last = opening) :
    Keeps opening (first :: (text ++ [last])) := by
  have hsettled : opening.after (first :: (text ++ [last])) = opening := by
    rw [Opening.after_cons, hfirst, Opening.after_append, htext.settled, Opening.after_cons, hlast,
      Opening.after_nil]
  refine ⟨hsettled, fun cut hcut => ?_⟩
  rcases List.prefix_cons_iff.mp hcut with rfl | ⟨rest, rfl, hrest⟩
  · exact le_rfl
  · rcases List.prefix_concat_iff.mp hrest with rfl | hwithin
    · rw [hsettled]
    · rw [Opening.after_cons, hfirst]
      exact hdepth.trans (htext.sane rest hwithin)

end Keeps

/-! ## Strings -/

section Strings

variable {depth : Nat}

/-- Within a string, only quotes and backslashes turn anything. -/
theorem turn_plain {char : Char} (hquote : char ≠ '"') (hbackslash : char ≠ '\\') :
    (Opening.mk depth .string).turn char = ⟨depth, .string⟩ := by
  simp [Opening.turn, hquote, hbackslash]

theorem keeps_escape (mark : Char) : Keeps ⟨depth, .string⟩ ['\\', mark] := by
  have hopen : (Opening.mk depth .string).turn '\\' = ⟨depth, .escape⟩ := by simp [Opening.turn]
  exact @Keeps.enclosed ⟨depth, .string⟩ ⟨depth, .escape⟩ '\\' mark [] hopen le_rfl .nil rfl

theorem hexValue_plain {char : Char} {value : Nat} (hvalue : hexValue? char = some value) :
    (Opening.mk depth .string).turn char = ⟨depth, .string⟩ := by
  refine turn_plain ?_ ?_
  · rintro rfl
    cases hvalue
  · rintro rfl
    cases hvalue

/-- Hexadecimal digits leave a string open. -/
theorem HexText.keeps {text : List Char} {value : Nat} (htext : HexText text value) :
    Keeps ⟨depth, .string⟩ text := by
  cases htext with
  | four hfirst hsecond hthird hfourth =>
      exact .cons (hexValue_plain hfirst) <| .cons (hexValue_plain hsecond) <|
        .cons (hexValue_plain hthird) <| .cons (hexValue_plain hfourth) .nil

/-- A spelled character leaves its string open. -/
theorem CharText.keeps {text : List Char} {char : Char} (htext : CharText text char) :
    Keeps ⟨depth, .string⟩ text := by
  cases htext with
  | plain hquote hbackslash _ => exact .singleton (turn_plain hquote hbackslash)
  | simple _ => exact keeps_escape _
  | unit hdigits => exact (keeps_escape 'u').append hdigits.keeps
  | pair hhigh hlow _ _ _ =>
      exact (keeps_escape 'u').append (hhigh.keeps.append ((keeps_escape 'u').append hlow.keeps))

theorem CharsText.keeps {text decoded : List Char} (htext : CharsText text decoded) :
    Keeps ⟨depth, .string⟩ text := by
  induction htext with
  | nil => exact .nil
  | cons hfirst _ ih => exact hfirst.keeps.append ih

/-- A spelled string opens and closes itself. -/
theorem StringText.keeps {text : List Char} {decoded : String} (htext : StringText text decoded) :
    Keeps ⟨depth, .tokens⟩ text := by
  cases htext with
  | quoted hraw =>
      exact @Keeps.enclosed ⟨depth, .tokens⟩ ⟨depth,
        .string⟩ '"' '"' _ (by simp [Opening.turn]) le_rfl
        hraw.keeps (by simp [Opening.turn])

end Strings

/-! ## Values -/

section Values

variable {depth : Nat}

/-- A character that is neither a quote nor a bracket. -/
def Bare (char : Char) : Prop :=
  char ≠ '"' ∧ char ≠ '[' ∧ char ≠ '\x7b' ∧ char ≠ ']' ∧ char ≠ '\x7d'

instance (char : Char) : Decidable (Bare char) := inferInstanceAs (Decidable (_ ∧ _))

theorem Bare.turn {char : Char} (hbare : Bare char) :
    (Opening.mk depth .tokens).turn char = ⟨depth, .tokens⟩ := by
  obtain ⟨hquote, hopenArray, hopenObject, hcloseArray, hcloseObject⟩ := hbare
  simp [Opening.turn, hquote, hopenArray, hopenObject, hcloseArray, hcloseObject]

theorem keeps_bare {text : List Char} (htext : ∀ char ∈ text, Bare char) :
    Keeps ⟨depth, .tokens⟩ text :=
  .all fun char hchar => (htext char hchar).turn

/-- Blanks are no brackets and no quotes. -/
theorem isBlank_bare {char : Char} (hblank : isBlank char) : Bare char := by
  simp only [isBlank, Bool.or_eq_true, decide_eq_true_eq] at hblank
  rcases hblank with ((rfl | rfl) | rfl) | rfl <;> simp [Bare]

theorem Blank.keeps {text : List Char} (hblank : Blank text) : Keeps ⟨depth, .tokens⟩ text :=
  keeps_bare fun char hchar => isBlank_bare (hblank char hchar)

theorem isDigit_bare {char : Char} (hdigit : char.isDigit) : Bare char := by
  refine ⟨?_, ?_, ?_, ?_, ?_⟩ <;>
  · rintro rfl
    exact absurd hdigit (by decide)

theorem Digits.keeps {text : List Char} (hdigits : Digits text) : Keeps ⟨depth, .tokens⟩ text :=
  keeps_bare fun char hchar => isDigit_bare (hdigits.2 char hchar)

/-- A number has no brackets. -/
theorem NumberText.keeps {text : List Char} (htext : NumberText text) :
    Keeps ⟨depth, .tokens⟩ text := by
  cases htext with
  | number hsign hinteger hfraction hexponent =>
      refine .append ?_ (.append ?_ (.append ?_ ?_))
      · rcases hsign with rfl | rfl <;> exact keeps_bare (by simp [Bare])
      · cases hinteger with
        | zero => exact keeps_bare (by simp [Bare])
        | digits hfirst _ hrest =>
            exact .cons (isDigit_bare hfirst).turn
              (keeps_bare fun char hchar => isDigit_bare (hrest char hchar))
      · cases hfraction with
        | absent => exact .nil
        | present hdigits => exact .cons (Bare.turn (by simp [Bare])) hdigits.keeps
      · cases hexponent with
        | absent => exact .nil
        | present hmark hsign hdigits =>
            refine .cons ?_ (.append ?_ hdigits.keeps)
            · rcases hmark with rfl | rfl <;> exact Bare.turn (by simp [Bare])
            · rcases hsign with rfl | rfl | rfl <;> exact keeps_bare (by simp [Bare])

theorem KeyText.keeps {text : List Char} {key : String} (htext : KeyText text key) :
    Keeps ⟨depth, .tokens⟩ text := by
  cases htext with
  | key hbefore htext hafter =>
      exact hbefore.keeps.append
        (htext.keeps.append (hafter.keeps.append (keeps_bare (by simp [Bare]))))

/-- Brackets around a text that keeps the depth keep it. -/
theorem keeps_array {text : List Char} (htext : Keeps ⟨depth + 1, .tokens⟩ text) :
    Keeps ⟨depth, .tokens⟩ ('[' :: (text ++ [']'])) :=
  .enclosed (by simp [Opening.turn]) (Nat.le_succ depth) htext (by simp [Opening.turn])

/-- Braces around a text that keeps the depth keep it. -/
theorem keeps_object {text : List Char} (htext : Keeps ⟨depth + 1, .tokens⟩ text) :
    Keeps ⟨depth, .tokens⟩ ('\x7b' :: (text ++ ['\x7d'])) :=
  .enclosed (by simp [Opening.turn]) (Nat.le_succ depth) htext (by simp [Opening.turn])

/-- Whatever is spelled keeps the depth, by induction on the grammar. -/
theorem Spells.keeps {text : List Char} {shape : Shape} (hspells : Spells text shape) :
    Keeps ⟨depth, .tokens⟩ text := by
  induction hspells generalizing depth with
  | literalNull => exact keeps_bare (by simp [Bare])
  | literalTrue => exact keeps_bare (by simp [Bare])
  | literalFalse => exact keeps_bare (by simp [Bare])
  | number number => exact number.valid.keeps
  | string htext => exact htext.keeps
  | emptyArray hblank => exact keeps_array hblank.keeps
  | array _ hbefore _ hafter ihItems ihLast =>
      have hkeeps := @keeps_array depth _
        (ihItems.append (hbefore.keeps.append (ihLast.append hafter.keeps)))
      simpa [List.append_assoc] using hkeeps
  | emptyObject hblank => exact keeps_object hblank.keeps
  | object _ hkey hbefore _ hafter ihMembers ihLast =>
      have hkeeps := @keeps_object depth _
        (ihMembers.append (hkey.keeps.append (hbefore.keeps.append (ihLast.append hafter.keeps))))
      simpa [List.append_assoc] using hkeeps
  | noItems => exact .nil
  | item _ hbefore _ hafter ihItems ihLast =>
      exact ihItems.append
        (hbefore.keeps.append (ihLast.append (hafter.keeps.append (keeps_bare (by simp [Bare])))))
  | noMembers => exact .nil
  | member _ hkey hbefore _ hafter ihMembers ihLast =>
      exact ihMembers.append (hkey.keeps.append
        (hbefore.keeps.append (ihLast.append (hafter.keeps.append (keeps_bare (by simp [Bare]))))))

/-- A document ends at the depth it began at. -/
theorem DocumentText.keeps {text : List Char} {value : Json} (htext : DocumentText text value) :
    Keeps ⟨depth, .tokens⟩ text := by
  cases htext with
  | document hbefore hvalue hafter => exact hbefore.keeps.append (hvalue.keeps.append hafter.keeps)

end Values

/-- The text of an object opens a bracket that only its last character closes. -/
theorem Spells.object_inner {text : List Char} {members : List (String × Json)}
    (hspells : Spells text (.value (.object members))) :
    ∃ inner, text = '\x7b' :: (inner ++ ['\x7d']) ∧ Keeps ⟨1, .tokens⟩ inner := by
  cases hspells with
  | emptyObject hblank => exact ⟨_, rfl, hblank.keeps⟩
  | object hmembers hkey hbefore hlast hafter =>
      refine ⟨_, ?_, hmembers.keeps.append
        (hkey.keeps.append (hbefore.keeps.append (hlast.keeps.append hafter.keeps)))⟩
      simp

theorem DocumentText.ne_nil {text : List Char} {value : Json} (htext : DocumentText text value) :
    text ≠ [] := by
  cases htext with
  | document _ hvalue _ =>
      rintro hnil
      simp only [List.append_eq_nil_iff] at hnil
      obtain ⟨-, rfl, -⟩ := hnil
      generalize hshape : Shape.value value = shape at hvalue
      generalize hempty : ([] : List Char) = text at hvalue
      cases hvalue with
      | number number =>
          obtain ⟨char, rest, hcons⟩ : ∃ char rest, number.text.toList = char :: rest := by
            rcases hnumber : number.text.toList with _ | ⟨char, rest⟩
            · have hvalid := number.valid
              rw [hnumber] at hvalid
              generalize hempty : ([] : List Char) = text at hvalid
              cases hvalid with
              | number hsign hinteger _ _ => cases hinteger <;> simp at hempty
            · exact ⟨char, rest, rfl⟩
          rw [hcons] at hempty
          cases hempty
      | string htext =>
          cases htext with
          | quoted hraw => cases hempty
      | noItems => cases hshape
      | item => cases hshape
      | noMembers => cases hshape
      | member => cases hshape
      | _ => cases hempty

/-- A beginning of an object's text that is a document is all of it. -/
theorem Spells.not_document {text cut : List Char} {members : List (String × Json)}
    (hspells : Spells text (.value (.object members))) (hcut : cut <+: text) (hne : cut ≠ text)
    (value : Json) : ¬DocumentText cut value := by
  intro hdocument
  obtain ⟨inner, rfl, hinner⟩ := hspells.object_inner
  have hsettled := (@DocumentText.keeps 0 cut value hdocument).settled
  rcases List.prefix_cons_iff.mp hcut with rfl | ⟨rest, rfl, hrest⟩
  · exact hdocument.ne_nil rfl
  · rcases List.prefix_concat_iff.mp hrest with rfl | hwithin
    · exact hne rfl
    · have hopen : (Opening.mk 0 .tokens).turn '\x7b' = ⟨1, .tokens⟩ := by simp [Opening.turn]
      have hdepth := hinner.sane rest hwithin
      rw [Opening.after_cons, hopen] at hsettled
      rw [hsettled] at hdepth
      exact absurd hdepth (by decide)

end Plasmosome.Reply
