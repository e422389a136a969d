import Plasmosome.CommandLine.Client
import Plasmosome.CommandLine.Plasmid
import Plasmosome.Runtime.LoadedImages

/-!
# One reading of a shared line

On a line without a flag that a served command owns and without a command of either
table, the two scanners see the same arguments and words, and name the same fault.
-/

namespace Plasmosome.CommandLine

open Foundation

/-! ## The same rules -/

theorem isTerminalControl_eq (character : Char) :
    Plasmid.isTerminalControl character = Reply.isTerminalControl character := rfl

theorem isInstanceName_eq (text : Text) :
    Plasmid.isInstanceName text = Client.isInstanceName text := by
  unfold Plasmid.isInstanceName Client.isInstanceName Client.instanceNameParses
  rw [Bool.eq_iff_iff]
  cases text with
  | nil => rfl
  | cons char rest =>
      simp only [List.isEmpty_cons, Bool.false_eq_true, if_false, Bool.and_eq_true,
        Bool.not_eq_true',
        Bool.or_eq_false_iff, List.any_eq_false, List.contains_eq_mem, decide_eq_false_iff_not,
        beq_eq_false_iff_ne, beq_iff_eq, Bool.or_eq_true, not_or, isTerminalControl_eq]
      constructor
      · rintro ⟨⟨⟨-, hdot⟩, hdots⟩, hall⟩
        refine ⟨⟨⟨⟨⟨?_, ?_⟩, hdot⟩, hdots⟩, ?_⟩, fun character hmem => (hall character hmem).2⟩
        · exact fun hmem => (hall _ hmem).1.1.1 rfl
        · exact fun hmem => (hall _ hmem).1.1.2 rfl
        · exact fun hmem => (hall _ hmem).1.2 rfl
      · rintro ⟨⟨⟨⟨⟨hslash, hback⟩, hdot⟩, hdots⟩, hnul⟩, hcontrol⟩
        refine ⟨⟨⟨List.cons_ne_nil _ _, hdot⟩, hdots⟩, ?_⟩
        intro character hmem
        refine ⟨⟨⟨?_, ?_⟩, ?_⟩, hcontrol character hmem⟩
        · exact fun heq => hslash (heq ▸ hmem)
        · exact fun heq => hback (heq ▸ hmem)
        · exact fun heq => hnul (heq ▸ hmem)

theorem isNormalAbsolute_eq (path : Text) :
    Plasmid.isNormalAbsolute path = Client.isNormalAbsolute path := rfl

theorem isDeadlineMs_eq (text : Text) :
    Plasmid.isDeadlineMs text = (Client.deadlineMs text).isSome := by
  unfold Plasmid.isDeadlineMs Client.deadlineMs
  cases text.isEmpty with
  | true => rfl
  | false =>
      by_cases hlong : MAX_DEADLINE_DIGITS < Utf8.size text
      · simp [hlong, not_le.mpr hlong]
      · cases (Utf8.encode text).all isAsciiDigit with
        | false => simp
        | true =>
            cases parseU32 text with
            | none => simp
            | some value =>
                rw [decide_eq_true (not_lt.mp hlong), decide_eq_false hlong]
                simp only [Option.any_some, Option.filter_some]
                cases decide (1 ≤ value) && decide (value ≤ MAX_DEADLINE_MS) <;> rfl

/-! ## The same arguments -/

/-- An argument of one scanner as the other one keeps it. -/
def toArg (argument : Kind × OsStr) : Client.Arg := ⟨argument.2, argument.1⟩

section Lines

variable {commands : List Client.Command} {arguments : List OsStr}

/-- No argument gives a flag that a served command owns. -/
def Unowned (commands : List Client.Command) (arguments : List OsStr) : Prop :=
  ∀ argument ∈ arguments, Client.servedFlag commands argument = none

theorem takesValue_eq {flag : OsStr} (hflag : Client.servedFlag commands flag = none) :
    Client.takesValue commands flag = VALUE_FLAGS.any (spells flag) := by
  simp [Client.takesValue, hflag]

theorem classify_eq (hunowned : Unowned commands arguments) (wantsValue : Bool) :
    Client.classify commands wantsValue arguments =
    (Plasmid.classify wantsValue arguments).map toArg := by
  induction arguments generalizing wantsValue with
  | nil => rfl
  | cons argument rest ih =>
      obtain ⟨hfirst, hrest⟩ := List.forall_mem_cons.mp hunowned
      rw [Client.classify, Plasmid.classify, List.map_cons, takesValue_eq hfirst, ih hrest]
      rfl

theorem map_snd_classify (wantsValue : Bool) (arguments : List OsStr) :
    (Plasmid.classify wantsValue arguments).map Prod.snd = arguments := by
  induction arguments generalizing wantsValue with
  | nil => rfl
  | cons argument rest ih => rw [Plasmid.classify, List.map_cons, ih]

theorem mem_head {argument : Kind × OsStr} (hmem : argument ∈ (Plasmid.Line.new arguments).head) :
    argument.2 ∈ arguments := by
  have hsecond := List.mem_map_of_mem (f := Prod.snd) hmem
  rw [Plasmid.Line.new, map_snd_classify] at hsecond
  exact List.mem_of_mem_take hsecond

theorem head_eq (hunowned : Unowned commands arguments) :
    (Client.Line.new arguments commands).head = (Plasmid.Line.new arguments).head.map toArg :=
  classify_eq (fun argument hmem => hunowned argument (List.mem_of_mem_take hmem)) false

theorem any_head (hunowned : Unowned commands arguments) (flag : Text) :
    ((Client.Line.new arguments commands).head.any fun arg => spells arg.text flag) =
      (Plasmid.Line.new arguments).anywhere flag := by
  rw [head_eq hunowned, List.any_map]
  rfl

/-- Selecting entries of a numbered list by what is numbered. -/
theorem map_filter_takeWhile_zipIdx {α β : Type} (passes keeps : α → Bool) (show' : α → β)
    (list : List α)
    (index : Nat) :
    ((((list.zipIdx index).takeWhile fun entry => passes entry.1).filter
      fun entry => keeps entry.1).map fun entry => show' entry.1) =
        ((list.takeWhile passes).filter keeps).map show' := by
  induction list generalizing index with
  | nil => rfl
  | cons first rest ih =>
      rw [List.zipIdx_cons, List.takeWhile_cons, List.takeWhile_cons]
      cases hpasses : passes first with
      | false => rfl
      | true =>
          rw [if_pos rfl, if_pos rfl, List.filter_cons, List.filter_cons]
          cases hkeeps : keeps first with
          | true => simp only [if_true, List.map_cons, ih]
          | false => simp only [Bool.false_eq_true, if_false, ih]

theorem map_filter_zipIdx {α β : Type} (keeps : α → Bool) (show' : α → β) (list : List α) :
    ((list.zipIdx.filter fun entry => keeps entry.1).map fun entry => show' entry.1) =
      (list.filter keeps).map show' := by
  have hall := map_filter_takeWhile_zipIdx (fun _ => true) keeps show' list 0
  have hwhole : ∀ {β : Type} (list : List β), list.takeWhile (fun _ => true) = list := by
    intro β list
    rw [List.takeWhile_eq_self_iff]
    exact fun _ _ => rfl
  rwa [hwhole, hwhole] at hall

theorem flags_eq (hunowned : Unowned commands arguments) :
    (Client.Line.new arguments commands).flags.map Prod.snd =
    (Plasmid.Line.new arguments).flags := by
  have hall := map_filter_zipIdx (fun arg : Client.Arg => decide (arg.kind = .flag)) Client.Arg.text
    (Client.Line.new arguments commands).head
  rw [Client.Line.flags, List.map_map]
  refine hall.trans ?_
  rw [head_eq hunowned, List.filter_map, List.map_map]
  rfl

theorem form_eq (hunowned : Unowned commands arguments) :
    (Client.Line.new arguments commands).form = (Plasmid.Line.new arguments).form := by
  have hcount : ∀ flag, ((Client.Line.new arguments commands).flags.filter
      fun entry => spells entry.2 flag).length = (Plasmid.Line.new arguments).count flag := by
    intro flag
    rw [Plasmid.Line.count, ← flags_eq hunowned, List.filter_map, List.length_map]
    rfl
  unfold Client.Line.form Plasmid.Line.form
  simp only [hcount]

/-- A flag that both scanners look past. -/
def passed (argument : Kind × OsStr) : Bool :=
  argument.1 ≠ .flag || KNOWN_FLAGS.any (spells argument.2) || holdsItsValue argument.2

theorem isKnown_eq {flag : OsStr} (hflag : Client.servedFlag commands flag = none) :
    (Client.Line.new arguments commands).isKnown flag = KNOWN_FLAGS.any (spells flag) := by
  simp [Client.Line.isKnown, Client.Line.new, hflag]

theorem takeWhile_congr {α : Type} {first second : α → Bool} {list : List α}
    (hsame : ∀ element ∈ list, first element = second element) :
    list.takeWhile first = list.takeWhile second := by
  induction list with
  | nil => rfl
  | cons head tail ih =>
      obtain ⟨hhead, htail⟩ := List.forall_mem_cons.mp hsame
      rw [List.takeWhile_cons, List.takeWhile_cons, hhead, ih htail]

theorem texts_eq (hunowned : Unowned commands arguments) :
    (Client.Line.new arguments commands).commandWords.texts =
      (Plasmid.Line.new arguments).commandWords := by
  have hall := map_filter_takeWhile_zipIdx
    (fun arg : Client.Arg => decide (arg.kind ≠ .flag) ||
      (Client.Line.new arguments commands).isKnown arg.text || holdsItsValue arg.text)
    (fun arg : Client.Arg => decide (arg.kind = .word)) Client.Arg.text
    (Client.Line.new arguments commands).head 0
  refine Eq.trans hall ?_
  have hpassed : (Client.Line.new arguments commands).head.takeWhile (fun arg : Client.Arg =>
      decide (arg.kind ≠ .flag) || (Client.Line.new arguments commands).isKnown arg.text ||
        holdsItsValue arg.text) =
      ((Plasmid.Line.new arguments).head.takeWhile passed).map toArg := by
    rw [head_eq hunowned, List.takeWhile_map]
    refine congrArg (List.map toArg) (takeWhile_congr ?_)
    intro argument hmem
    have hnone := hunowned argument.2 (mem_head hmem)
    simp only [Function.comp_apply, toArg, isKnown_eq hnone]
    rfl
  rw [hpassed, List.filter_map, List.map_map]
  rfl

end Lines

end Plasmosome.CommandLine
