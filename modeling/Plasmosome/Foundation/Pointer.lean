import Mathlib

/-!
# Pointers into a document

A pointer names a place by the segments that lead to it. Each segment follows a
slash, with `~` and `/` inside it escaped. Parsing inverts writing.
-/

namespace Foundation.Pointer

def escapeChar : Char → List Char
  | '~' => ['~', '0']
  | '/' => ['~', '1']
  | other => [other]

def escape (segment : List Char) : List Char := segment.flatMap escapeChar

/-- The segment an escaped one stands for, if every tilde in it starts an escape. -/
def unescape : List Char → Option (List Char)
  | [] => some []
  | '~' :: '0' :: rest => (unescape rest).map ('~' :: ·)
  | '~' :: '1' :: rest => (unescape rest).map ('/' :: ·)
  | '~' :: _ => none
  | other :: rest => (unescape rest).map (other :: ·)

def write (segments : List (List Char)) : List Char :=
  segments.flatMap fun segment => '/' :: escape segment

def parse : List Char → Option (List (List Char))
  | [] => some []
  | '/' :: rest => (rest.splitOn '/').mapM unescape
  | _ => none

theorem unescape_cons {char : Char} (hchar : char ≠ '~') (rest : List Char) :
    unescape (char :: rest) = (unescape rest).map (char :: ·) := by
  rw [unescape] <;> simp_all

theorem unescape_escapeChar_append (char : Char) (rest : List Char) :
    unescape (escapeChar char ++ rest) = (unescape rest).map (char :: ·) := by
  unfold escapeChar
  split
  next => simp [unescape]
  next => simp [unescape]
  next htilde _ => exact unescape_cons htilde rest

@[simp] theorem unescape_escape (segment : List Char) :
    unescape (escape segment) = some segment := by
  induction segment with
  | nil => rfl
  | cons char segment ih =>
      have hcons : escape (char :: segment) = escapeChar char ++ escape segment := by
        simp [escape]
      rw [hcons, unescape_escapeChar_append, ih]
      rfl

theorem escape_of_plain {segment : List Char}
    (hplain : ∀ char ∈ segment, char ≠ '~' ∧ char ≠ '/') : escape segment = segment := by
  induction segment with
  | nil => rfl
  | cons char segment ih =>
      obtain ⟨⟨htilde, hslash⟩, hrest⟩ := List.forall_mem_cons.mp hplain
      have hchar : escapeChar char = [char] := by
        unfold escapeChar
        split
        next => exact absurd rfl htilde
        next => exact absurd rfl hslash
        next => rfl
      rw [escape, List.flatMap_cons, hchar]
      exact congrArg (char :: ·) (ih hrest)

theorem slash_notMem_escape (segment : List Char) : '/' ∉ escape segment := by
  intro hslash
  obtain ⟨char, _, hchar⟩ := List.mem_flatMap.mp hslash
  unfold escapeChar at hchar
  split at hchar
  next => simp at hchar
  next => simp at hchar
  next hother => exact hother (List.mem_singleton.mp hchar).symm

theorem write_cons (first : List Char) (rest : List (List Char)) :
    write (first :: rest) = '/' :: ['/'].intercalate ((first :: rest).map escape) := by
  induction rest generalizing first with
  | nil => simp [write, List.intercalate]
  | cons second rest ih =>
      have hrest := ih second
      simp only [write, List.flatMap_cons] at hrest ⊢
      rw [hrest]
      simp [List.intercalate]

theorem mapM_unescape_escape (segments : List (List Char)) :
    (segments.map escape).mapM unescape = some segments := by
  induction segments with
  | nil => rfl
  | cons segment segments ih =>
      rw [List.map_cons, List.mapM_cons, unescape_escape, ih]
      rfl

/-- Every list of segments is read back from the pointer it writes. -/
theorem parse_write (segments : List (List Char)) : parse (write segments) = some segments := by
  cases segments with
  | nil => rfl
  | cons first rest =>
      rw [write_cons, parse, List.splitOn_intercalate]
      · exact mapM_unescape_escape (first :: rest)
      · intro escaped hescaped
        obtain ⟨segment, _, rfl⟩ := List.mem_map.mp hescaped
        exact slash_notMem_escape segment
      · simp

end Foundation.Pointer
