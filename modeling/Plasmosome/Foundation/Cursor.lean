import Plasmosome.Foundation.Utf8

/-!
# A cursor over a text

A cursor holds the text still to be read and the byte offset it stands at.
`Took start text stop` says that reading `text` moves a cursor from `start` to
`stop`; what a reader takes is determined by where it starts and what it reads.
-/

namespace Foundation

structure Cursor where
  rest : List Char
  offset : Nat
deriving DecidableEq, Repr

namespace Cursor

def peek (cursor : Cursor) : Option Char := cursor.rest.head?

def advance (cursor : Cursor) : Cursor :=
  match cursor.rest with
  | [] => cursor
  | char :: rest => ⟨rest, cursor.offset + char.utf8Size⟩

/-- The cursor past the character, if that comes next. -/
def eat (cursor : Cursor) (char : Char) : Option Cursor :=
  if cursor.peek = some char then some cursor.advance else none

def skipWhile (accepts : Char → Bool) (cursor : Cursor) : Cursor :=
  ⟨cursor.rest.dropWhile accepts, cursor.offset + Utf8.size (cursor.rest.takeWhile accepts)⟩

/-- The text between two cursors. -/
def slice (start stop : Cursor) : List Char :=
  start.rest.take (start.rest.length - stop.rest.length)

/-- Reading the text moves a cursor from `start` to `stop`. -/
structure Took (start : Cursor) (text : List Char) (stop : Cursor) : Prop where
  rest : start.rest = text ++ stop.rest
  offset : stop.offset = start.offset + Utf8.size text

/-- What comes next, if anything does, is not accepted. -/
def Halts (accepts : Char → Bool) (cursor : Cursor) : Prop :=
  ∀ char, cursor.peek = some char → accepts char = false

namespace Took

theorem refl (cursor : Cursor) : Took cursor [] cursor := ⟨rfl, rfl⟩

theorem trans {start middle stop : Cursor} {first second : List Char}
    (hfirst : Took start first middle) (hsecond : Took middle second stop) :
    Took start (first ++ second) stop where
  rest := by rw [hfirst.rest, hsecond.rest, List.append_assoc]
  offset := by rw [hsecond.offset, hfirst.offset, Utf8.size_append, Nat.add_assoc]

theorem split {start stop : Cursor} {first second : List Char}
    (htook : Took start (first ++ second) stop) :
    ∃ middle, Took start first middle ∧ Took middle second stop := by
  refine ⟨⟨second ++ stop.rest, start.offset + Utf8.size first⟩, ⟨?_, rfl⟩, rfl, ?_⟩
  · rw [htook.rest, List.append_assoc]
  · rw [htook.offset, Utf8.size_append, Nat.add_assoc]

theorem unique {start first second : Cursor} {text : List Char} (hfirst : Took start text first)
    (hsecond : Took start text second) : first = second := by
  cases first
  cases second
  rw [Cursor.mk.injEq]
  exact ⟨List.append_cancel_left (hfirst.rest.symm.trans hsecond.rest),
    hfirst.offset.trans hsecond.offset.symm⟩

theorem length_eq {start stop : Cursor} {text : List Char} (htook : Took start text stop) :
    start.rest.length = text.length + stop.rest.length := by
  rw [htook.rest, List.length_append]

theorem slice_eq {start stop : Cursor} {text : List Char} (htook : Took start text stop) :
    start.slice stop = text := by
  rw [slice, htook.length_eq, Nat.add_sub_cancel, htook.rest, List.take_left]

theorem peek_cons {start stop : Cursor} {char : Char} {text : List Char}
    (htook : Took start (char :: text) stop) : start.peek = some char := by
  rw [peek, htook.rest]
  rfl

theorem advance_cons {start stop : Cursor} {char : Char} {text : List Char}
    (htook : Took start (char :: text) stop) : Took start.advance text stop := by
  have hrest := htook.rest
  have hoffset := htook.offset
  rw [List.cons_append] at hrest
  rw [Utf8.size_cons, ← Nat.add_assoc] at hoffset
  constructor
  · simp [advance, hrest]
  · simp [advance, hrest, hoffset]

end Took

theorem took_advance {cursor : Cursor} {char : Char} (hpeek : cursor.peek = some char) :
    Took cursor [char] cursor.advance := by
  rcases cursor with ⟨rest, offset⟩
  cases rest with
  | nil => simp [peek] at hpeek
  | cons first rest =>
      simp only [peek, List.head?_cons, Option.some.injEq] at hpeek
      subst hpeek
      exact ⟨rfl, by simp [advance]⟩

theorem eat_eq_some {cursor stop : Cursor} {char : Char} :
    cursor.eat char = some stop ↔ Took cursor [char] stop := by
  constructor
  · intro heat
    rw [eat] at heat
    split at heat
    next hpeek => exact Option.some.inj heat ▸ took_advance hpeek
    next => cases heat
  · intro htook
    rw [eat, if_pos htook.peek_cons, (took_advance htook.peek_cons).unique htook]

theorem eat_of_took {start stop : Cursor} {char : Char} {text : List Char}
    (htook : Took start (char :: text) stop) :
    start.eat char = some start.advance := by
  rw [eat, if_pos htook.peek_cons]

theorem eat_eq_none {cursor : Cursor} {char : Char} (hpeek : cursor.peek ≠ some char) :
    cursor.eat char = none := if_neg hpeek

theorem Halts.eat_eq_none {accepts : Char → Bool} {cursor : Cursor} (hhalts : Halts accepts cursor)
    {char : Char} (hchar : accepts char) : cursor.eat char = none := by
  apply Cursor.eat_eq_none
  intro hpeek
  rw [hhalts char hpeek] at hchar
  cases hchar

theorem Halts.mono {accepts fewer : Char → Bool} {cursor : Cursor} (hhalts : Halts accepts cursor)
    (hfewer : ∀ char, fewer char → accepts char) : Halts fewer cursor := by
  intro char hpeek
  have hrefused := hhalts char hpeek
  cases haccepts : fewer char with
  | false => rfl
  | true => rw [hfewer char haccepts] at hrefused; cases hrefused

theorem took_skipWhile (accepts : Char → Bool) (cursor : Cursor) :
    Took cursor (cursor.rest.takeWhile accepts) (cursor.skipWhile accepts) :=
  ⟨(List.takeWhile_append_dropWhile).symm, rfl⟩

theorem halts_skipWhile (accepts : Char → Bool) (cursor : Cursor) :
    Halts accepts (cursor.skipWhile accepts) := by
  intro char hpeek
  have hhead := List.head?_dropWhile_not accepts cursor.rest
  rw [peek, skipWhile] at hpeek
  rw [hpeek] at hhead
  simpa using hhead

theorem takeWhile_append_of_halts {accepts : Char → Bool} {text rest : List Char}
    (htext : ∀ char ∈ text, accepts char)
    (hrest : ∀ char, rest.head? = some char → accepts char = false) :
    (text ++ rest).takeWhile accepts = text := by
  rw [List.takeWhile_append_of_pos htext]
  cases rest with
  | nil => simp
  | cons char rest => simp [hrest char rfl]

theorem skipWhile_of_halts {accepts : Char → Bool} {start stop : Cursor} {text : List Char}
    (htook : Took start text stop) (htext : ∀ char ∈ text, accepts char)
    (hhalts : Halts accepts stop) : start.skipWhile accepts = stop := by
  have hskip := took_skipWhile accepts start
  rw [htook.rest, takeWhile_append_of_halts htext hhalts] at hskip
  exact hskip.unique htook

/-- Skipping goes on from any point of what it skips. -/
theorem skipWhile_of_took {accepts : Char → Bool} {start middle : Cursor} {text : List Char}
    (htook : Took start text middle) (htext : ∀ char ∈ text, accepts char) :
    start.skipWhile accepts = middle.skipWhile accepts := by
  apply skipWhile_of_halts (htook.trans (took_skipWhile accepts middle))
  · intro char hchar
    rcases List.mem_append.mp hchar with hmem | hmem
    · exact htext char hmem
    · exact List.mem_takeWhile_imp hmem
  · exact halts_skipWhile accepts middle

theorem rest_eq_nil_iff {cursor : Cursor} : cursor.rest = [] ↔ cursor.peek = none := by
  rw [peek, List.head?_eq_none_iff]

end Cursor

end Foundation
