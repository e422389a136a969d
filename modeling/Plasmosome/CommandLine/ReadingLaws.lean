import Plasmosome.CommandLine.ScanLaws

/-!
# The two readings of a line

A shared line is read alike, plasmid reads every line, and it makes a new plasmid from
its own name alone.
-/

namespace Plasmosome.CommandLine

open Foundation

section Lines

variable {commands : List Client.Command} {arguments : List OsStr}

/-! ## A shared line -/

theorem tail_head :
    (Client.Line.new arguments commands).tail.head? =
      if (Plasmid.Line.new arguments).dashes then some (Utf8.encode DASHES) else none := by
  unfold Client.Line.new Plasmid.Line.new
  cases hfind : arguments.findIdx? fun argument => spells argument DASHES with
  | none => simp
  | some split =>
      obtain ⟨hsplit, hdashes, -⟩ := List.findIdx?_eq_some_iff_getElem.mp hfind
      simp only [Option.getD_some, decide_eq_true_eq, if_pos hsplit, List.head?_drop,
        List.getElem?_eq_getElem hsplit, Option.some.injEq]
      exact beq_iff_eq.mp hdashes

/-- The first word of a shared line has nothing that only a command has. -/
theorem unnamed_bind {α : Type} {serves : OsStr → Option α} (hunnamed : Unnamed commands arguments)
    (hserves : ∀ word, Plasmid.command word = none → serves word = none) :
    (Plasmid.Line.new arguments).commandWords.head?.bind serves = none := by
  rcases words_cases hunnamed with hwords | ⟨word, words, hwords, hcommand, -⟩
  · rw [hwords]
    rfl
  · rw [hwords]
    exact hserves word hcommand

theorem parse_alike (hunowned : Unowned commands arguments) (hunnamed : Unnamed commands arguments)
    (hplain : Plain arguments) :
    ∃ ours theirs, (Plasmid.Line.new arguments).parse = .ok ours ∧
      (Client.Line.new arguments commands).parse = .ok theirs ∧ Alike ours theirs := by
  have hserved : (Plasmid.Line.new arguments).commandWords.head?.bind Plasmid.served = none := by
    refine unnamed_bind hunnamed fun word hcommand => ?_
    rw [Plasmid.served, hcommand]
    rfl
  obtain ⟨ours, theirs, hours, htheirs,
    hends⟩ := @scan_alike commands arguments [] _ hunowned hunnamed
    hplain [] nofun (List.nil_append _).symm fun hnil => by simp [Plasmid.Line.missingValue, hnil]
  rw [← head_eq hunowned] at htheirs
  unfold Plasmid.Line.parse Client.Line.parse
  rw [commands_eq, hserved]
  change (Client.Line.new arguments commands).faults _ _
    (Client.Line.new arguments commands).head 0 [] = _ at htheirs
  change (Plasmid.Line.new arguments).scan none (Plasmid.Line.new arguments).head 0 _ = _ at hours
  simp only [hours, htheirs, bind, Except.bind]
  cases hends with
  | fault halike => exact ⟨_, _, rfl, rfl, halike⟩
  | missing hlate halike =>
      simp only [hlate]
      exact ⟨_, _, rfl, rfl, halike⟩
  | passed hlate hwords =>
      have hname : Client.name (Client.Line.new arguments commands).commandWords.texts commands =
          .nothing := by
        rw [texts_eq hunowned, hwords]
        rfl
      simp only [hlate, hname, Client.Line.noCommand, tail_head]
      cases (Plasmid.Line.new arguments).dashes with
      | true => exact ⟨_, _, rfl, rfl, alike_usage hunowned _ _ _⟩
      | false => exact ⟨_, _, rfl, rfl, alike_usage hunowned _ _ _⟩

theorem asks_help (hunowned : Unowned commands arguments) :
    ((Client.Line.new arguments commands).head.any fun arg =>
      spells arg.text SHORT_HELP || spells arg.text HELP) =
        ((Plasmid.Line.new arguments).anywhere SHORT_HELP ||
          (Plasmid.Line.new arguments).anywhere HELP) := by
  rw [← any_head hunowned, ← any_head hunowned, Bool.eq_iff_iff]
  simp only [Bool.or_eq_true, List.any_eq_true, and_or_left, exists_or]

/-- The version is asked for alone where it is the only argument. -/
theorem asks_version (hversion : (Plasmid.Line.new arguments).anywhere VERSION = true) :
    arguments = [Utf8.encode VERSION] ↔ arguments.length = 1 := by
  refine ⟨fun heq => heq ▸ rfl, fun hlength => ?_⟩
  obtain ⟨argument, rfl⟩ := List.length_eq_one_iff.mp hlength
  obtain ⟨found, hmem, hspells⟩ := List.any_eq_true.mp hversion
  have hfound := mem_head hmem
  rw [List.mem_singleton] at hfound
  rw [← hfound, beq_iff_eq.mp hspells]

theorem version_anywhere : (Plasmid.Line.new [Utf8.encode VERSION]).anywhere VERSION = true := by
  decide

theorem read_alike (hunowned : Unowned commands arguments) (hunnamed : Unnamed commands arguments) :
    ∃ ours theirs, Plasmid.read arguments = .ok ours ∧ Client.read arguments commands = .ok theirs ∧
      Alike ours theirs := by
  unfold Plasmid.read Client.read
  simp only [asks_help hunowned, any_head hunowned]
  split
  next =>
    obtain ⟨theirs, htheirs, halike⟩ := help_alike hunowned hunnamed
    exact ⟨_, theirs, rfl, htheirs, halike⟩
  next hhelp =>
    rw [Bool.not_eq_true, Bool.or_eq_false_iff] at hhelp
    cases hversion : (Plasmid.Line.new arguments).anywhere VERSION with
    | true =>
        simp only [asks_version hversion, if_true]
        split
        next => exact ⟨_, _, rfl, rfl, Alike.version⟩
        next => exact ⟨_, _, rfl, rfl, alike_usage hunowned _ _ _⟩
    | false =>
        have hplain : Plain arguments := by
          simp only [Plain, List.forall_mem_cons]
          exact ⟨hhelp.1, hhelp.2, hversion, nofun⟩
        have hother : arguments ≠ [Utf8.encode VERSION] := by
          rintro rfl
          rw [version_anywhere] at hversion
          cases hversion
        have hserved :
            (Plasmid.Line.new arguments).commandWords.head?.bind Plasmid.unserved = none := by
          refine unnamed_bind hunnamed fun word hcommand => ?_
          rw [Plasmid.unserved, hcommand]
          rfl
        simp only [hother, hserved, if_false, Bool.false_eq_true]
        have hnamed := named_not_command hunowned hunnamed
        cases hname :
            Client.name (Client.Line.new arguments commands).commandWords.texts commands with
        | command command => exact absurd hname (hnamed command)
        | nothing | group | breaks => exact parse_alike hunowned hunnamed hplain

end Lines

/-! ## Every line -/

namespace Plasmid

def Reading.Refuses (reading : Reading) : Prop := ∃ refusal, reading = .refuse refusal

namespace Line

variable {line : Line} {fault : Reading}

theorem usage_refuses (message : Text)
    (argument : Option OsStr) : (line.usage message argument).Refuses :=
  ⟨_, rfl⟩

theorem twiceOrClash_refuses {seen : List Text} {flag : Text}
    (hfault : line.twiceOrClash seen flag = some fault) : fault.Refuses := by
  unfold twiceOrClash at hfault
  split at hfault
  next =>
    cases hfault
    exact usage_refuses _ _
  next =>
    dsimp only at hfault
    split at hfault
    next => cases hfault
    next =>
      split at hfault
      next =>
        cases hfault
        exact usage_refuses _ _
      next => cases hfault

theorem valueFault_refuses {flag : OsStr} {value : Text}
    (hfault : line.valueFault flag value = some fault) :
    fault.Refuses := by
  obtain ⟨rule, -, rfl⟩ := Option.map_eq_some_iff.mp hfault
  exact usage_refuses _ _

theorem formFault_refuses {flags : List OsStr} {seen : List Text}
    (hfault : line.formFault flags seen = some fault) : fault.Refuses := by
  induction flags generalizing seen with
  | nil => cases hfault
  | cons flag rest ih =>
      rw [formFault] at hfault
      split at hfault
      next => exact ih hfault
      next form _ =>
        split at hfault
        next hclash =>
          cases hfault
          exact twiceOrClash_refuses hclash
        next => exact ih hfault

theorem missingValue_refuses (hfault : line.missingValue = some fault) : fault.Refuses := by
  unfold missingValue at hfault
  split at hfault
  next => cases hfault
  next =>
    split at hfault
    next =>
      cases hfault
      exact usage_refuses _ _
    next => cases hfault

end Line

section Total

variable {arguments : List OsStr}

/-- The scan of a line reads every value after its flag, and its faults are refusals. -/
theorem scan_total {done rest : List (Kind × OsStr)} (command : Option Command) (state : Line.Scan)
    (hhead : (Line.new arguments).head = done ++ rest) :
    ∃ outcome, (Line.new arguments).scan command rest done.length state = .ok outcome ∧
      ∀ fault, outcome = .inl fault → fault.Refuses := by
  induction rest generalizing done state with
  | nil => exact ⟨_, rfl, fun fault hfault => by cases hfault⟩
  | cons argument rest ih =>
      obtain ⟨kind, argument⟩ := argument
      have hnext : (Line.new arguments).head = (done ++ [(kind, argument)]) ++ rest := by
        rw [hhead, List.append_assoc, List.singleton_append]
      have hgo : ∀ state, ∃ outcome,
          (Line.new arguments).scan command rest (done.length + 1) state = .ok outcome ∧
            ∀ fault, outcome = .inl fault → fault.Refuses := by
        intro state
        have hrest := ih state hnext
        rwa [List.length_append, List.length_singleton] at hrest
      have hstop : ∀ {reading : Reading}, reading.Refuses → ∃ outcome,
          (Except.ok (.inl reading) : Run (Reading ⊕ Line.Scan)) = .ok outcome ∧
            ∀ fault, outcome = .inl fault → fault.Refuses := by
        intro reading hrefuses
        refine ⟨_, rfl, fun fault hfault => ?_⟩
        cases hfault
        exact hrefuses
      rw [Line.scan]
      split
      next => exact hstop (Line.usage_refuses _ _)
      next text hstr =>
        split
        next =>
          obtain ⟨earlier, flag, rfl⟩ := value_after hhead
          rw [List.append_assoc, List.singleton_append] at hhead
          rw [before_concat hhead]
          simp only [bind, Except.bind]
          split
          next hfault => exact hstop (Line.valueFault_refuses hfault)
          next => exact hgo state
        next =>
          split
          next => exact hstop (Line.usage_refuses _ _)
          next =>
            split
            next => exact hstop (Line.usage_refuses _ _)
            next =>
              split
              next hfault => exact hstop (Line.twiceOrClash_refuses hfault)
              next => exact hgo _
        next => exact hstop (Line.usage_refuses _ _)
        next =>
          split
          next => exact hgo _
          next =>
            split
            next => exact hstop (Line.usage_refuses _ _)
            next =>
              split
              next => exact hgo _
              next => exact hstop (Line.usage_refuses _ _)

end Total

end Plasmid

end Plasmosome.CommandLine
