import Plasmosome.CommandLine.ParityLaws

/-!
# The scanners in step

On a shared line the scanners pass the same flags and values, stop at the same first
fault, and reach no word but the first.
-/

namespace Plasmosome.CommandLine

open Foundation

/-! ## The arguments passed -/

section Head

variable {arguments : List OsStr} {done rest : List (Kind × OsStr)} {argument : Kind × OsStr}

theorem classify_first {arguments : List OsStr}
    (hhead : Plasmid.classify false arguments = argument :: rest) :
    argument.1 ≠ .value := by
  cases arguments with
  | nil => cases hhead
  | cons first others =>
      rw [Plasmid.classify] at hhead
      obtain ⟨rfl, -⟩ := List.cons.inj hhead
      simp only [Bool.false_eq_true, if_false]
      split <;> simp

/-- A value stands after an argument of the line. -/
theorem value_after {text : OsStr}
    (hhead : (Plasmid.Line.new arguments).head = done ++ (.value, text) :: rest) :
    ∃ earlier flag, done = earlier ++ [flag] := by
  rcases List.eq_nil_or_concat' done with rfl | hconcat
  · exact absurd rfl (classify_first hhead)
  · exact hconcat

theorem getElem?_concat {α : Type} (earlier rest : List α) (last : α) :
    (earlier ++ last :: rest)[earlier.length]? = some last := by
  rw [List.getElem?_append_right (le_refl _), Nat.sub_self, List.getElem?_cons_zero]

theorem before_concat {line : Plasmid.Line} {flag : Kind × OsStr}
    (hhead : line.head = done ++ flag :: rest) :
    line.before (done ++ [flag]).length = .ok flag.2 := by
  have hlast : line.head[done.length]? = some flag := by rw [hhead, getElem?_concat]
  unfold Plasmid.Line.before
  rw [List.length_append, List.length_singleton, Words.sub_fits (Nat.le_add_left _ _),
    Nat.add_sub_cancel]
  change (present line.head[done.length]? >>= fun argument => .ok argument.2) = _
  rw [hlast]
  rfl

theorem client_before_concat {line : Client.Line} {done rest : List Client.Arg} {flag : Client.Arg}
    (hhead : line.head = done ++ flag :: rest) :
    line.before (done ++ [flag]).length = .ok flag.text := by
  have hlast : line.head[done.length]? = some flag := by rw [hhead, getElem?_concat]
  unfold Client.Line.before
  rw [List.length_append, List.length_singleton, Words.sub_fits (Nat.le_add_left _ _),
    Nat.add_sub_cancel]
  change (present line.head[done.length]? >>= fun argument => .ok argument.text) = _
  rw [hlast]
  rfl

end Head

/-! ## In step -/

section Lines

variable {commands : List Client.Command} {arguments : List OsStr} {done rest : List (Kind × OsStr)}

/-- The arguments are no words, and no unknown flag is among them. -/
def Passed (done : List (Kind × OsStr)) : Prop :=
  ∀ argument ∈ done, argument.1 ≠ .word ∧ passed argument = true

theorem Passed.snoc {argument : Kind × OsStr} (hdone : Passed done) (hword : argument.1 ≠ .word)
    (hpassed : passed argument = true) : Passed (done ++ [argument]) := by
  intro earlier hmem
  rcases List.mem_append.mp hmem with hmem | hmem
  · exact hdone earlier hmem
  · rw [List.mem_singleton] at hmem
    exact hmem ▸ ⟨hword, hpassed⟩

theorem commandWords_nil (hdone : Passed (Plasmid.Line.new arguments).head) :
    (Plasmid.Line.new arguments).commandWords = [] := by
  unfold Plasmid.Line.commandWords
  rw [List.map_eq_nil_iff, List.filter_eq_nil_iff]
  intro argument hmem hword
  exact (hdone argument (List.takeWhile_subset _ hmem)).1 (of_decide_eq_true hword)

/-- The first word is the first of the command words, at its own index. -/
theorem client_commandWords (hunowned : Unowned commands arguments) {text : OsStr}
    (hdone : Passed done)
    (hhead : (Plasmid.Line.new arguments).head = done ++ (.word, text) :: rest) :
    ∃ texts positions, (Client.Line.new arguments commands).commandWords =
      ⟨text :: texts, done.length :: positions⟩ := by
  have hentries : ∀ entry ∈ (done.map toArg).zipIdx, entry.1.kind ≠ .word ∧
      (decide (entry.1.kind ≠ .flag) || (Client.Line.new arguments commands).isKnown entry.1.text ||
        holdsItsValue entry.1.text) = true := by
    intro entry hmem
    obtain ⟨argument, hargument, heq⟩ := List.mem_map.mp (List.fst_mem_of_mem_zipIdx hmem)
    have hnone := hunowned argument.2 (mem_head (hhead ▸ List.mem_append_left _ hargument))
    rw [← heq]
    simp only [toArg, isKnown_eq hnone]
    exact hdone argument hargument
  unfold Client.Line.commandWords
  rw [head_eq hunowned, hhead, List.map_append, List.zipIdx_append, List.map_cons, List.zipIdx_cons,
    List.takeWhile_append_of_pos (fun entry hmem => (hentries entry hmem).2), List.filter_append]
  have hnone :
      (done.map toArg).zipIdx.filter (fun entry => decide (entry.1.kind = .word)) = [] := by
    rw [List.filter_eq_nil_iff]
    exact fun entry hmem hword => (hentries entry hmem).1 (of_decide_eq_true hword)
  rw [hnone, List.takeWhile_cons_of_pos (by rfl), List.filter_cons_of_pos (by rfl), List.nil_append,
    Nat.zero_add, List.length_map]
  exact ⟨_, _, rfl⟩

theorem wordFault_eq {line : Client.Line} {text : OsStr} {texts : List OsStr} {index : Nat}
    {positions : List Nat} :
    line.wordFault index ⟨text :: texts, index :: positions⟩ (.breaks 0) =
      .ok (some (line.unknownCommand text)) := by
  unfold Client.Line.wordFault
  simp only [List.findIdx?_cons, decide_true, if_true]
  rfl

/-- No argument of the line asks for help or for the version. -/
def Plain (arguments : List OsStr) : Prop :=
  ∀ flag ∈ [SHORT_HELP, HELP, VERSION], (Plasmid.Line.new arguments).anywhere flag = false

theorem Plain.known_iff (hplain : Plain arguments) {kind : Kind} {text : Text}
    (hmem : (kind, Utf8.encode text) ∈ (Plasmid.Line.new arguments).head) :
    text ∈ KNOWN_FLAGS ↔ text ∈ Plasmid.FLAGS := by
  have hnot : text ∉ [SHORT_HELP, HELP, VERSION] := by
    intro hflag
    have hnone := List.any_eq_false.mp (hplain text hflag) _ hmem
    simp [spells_encode] at hnone
  simp only [KNOWN_FLAGS, Plasmid.FLAGS, List.mem_cons, List.not_mem_nil, or_false] at hnot ⊢
  tauto

theorem missingValue_eq {line : Plasmid.Line} {kind : Kind} {flag : OsStr}
    (hhead : line.head = done ++ [(kind, flag)]) :
    line.missingValue = if kind = .flag ∧ VALUE_FLAGS.any (spells flag) then
      some (line.usage (toStringLossy flag ++ " needs a value".toList) (some flag)) else none := by
  unfold Plasmid.Line.missingValue
  rw [hhead, List.getLast?_concat]

/-- The client's fault of a flag that no served command owns, where no command is named. -/
theorem flagFault_eq {line : Client.Line} {index : Nat} {flag : OsStr} {seen : List OsStr}
    {named : Client.Named} (hflag : Client.servedFlag line.commands flag = none)
    (hnamed : ∀ command, named ≠ .command command) :
    line.flagFault index flag seen named =
      if KNOWN_FLAGS.any (spells flag) then
        match line.repeated seen flag with
        | some fault => some fault
        | none =>
            if VALUE_FLAGS.any (spells flag) && line.head[index + 1]?.isNone then
              some (line.usage (toStringLossy flag ++ " needs a value".toList) (some flag))
            else none
      else
        some (line.usage ("unknown flag ".toList ++ quoted (toStringLossy flag) ++
          "; see plasmosome --help".toList) (some flag)) := by
  have hknown : line.isKnown flag = KNOWN_FLAGS.any (spells flag) := by
    simp [Client.Line.isKnown, hflag]
  have htakes : Client.takesValue line.commands flag = VALUE_FLAGS.any (spells flag) :=
    takesValue_eq hflag
  unfold Client.Line.flagFault
  rw [hknown, htakes]
  simp only [hflag, Option.filter_none]
  cases KNOWN_FLAGS.any (spells flag) with
  | false => rfl
  | true =>
      cases line.repeated seen flag with
      | some fault => rfl
      | none =>
          cases named with
          | command command => exact absurd rfl (hnamed command)
          | nothing | group | breaks =>
              cases VALUE_FLAGS.any (spells flag) <;> cases line.head[index + 1]?.isNone <;> rfl

theorem named_not_command (hunowned : Unowned commands arguments)
    (hunnamed : Unnamed commands arguments)
    (command : Client.Command) :
    Client.name (Client.Line.new arguments commands).commandWords.texts commands ≠
    .command command := by
  rw [texts_eq hunowned]
  rcases words_cases hunnamed with hwords | ⟨word, words, hwords, -, hname⟩
  · rw [hwords]
    nofun
  · rw [hwords, hname]
    nofun

theorem client_head_next (hunowned : Unowned commands arguments)
    (hhead : (Plasmid.Line.new arguments).head = done ++ rest) :
    (Client.Line.new arguments commands).head[done.length]?.isNone = rest.isEmpty := by
  rw [head_eq hunowned, hhead, List.getElem?_map, List.getElem?_append_right (le_refl _),
    Nat.sub_self,
    Option.isNone_map]
  cases rest <;> rfl

/-- How the scans end: at one fault, at a value that only plasmid's end misses, or with neither
a fault nor a word. -/
inductive Ends (line : Plasmid.Line) :
    Plasmid.Reading ⊕ Plasmid.Line.Scan → Option Client.Reading → Prop
  | fault {ours : Plasmid.Reading} {theirs : Client.Reading} :
      Alike ours theirs → Ends line (.inl ours) (some theirs)
  | missing {ours : Plasmid.Reading} {theirs : Client.Reading} {state : Plasmid.Line.Scan} :
      line.missingValue = some ours → Alike ours theirs → Ends line (.inr state) (some theirs)
  | passed {state : Plasmid.Line.Scan} :
      line.missingValue = none → line.commandWords = [] → Ends line (.inr state) none

theorem scan_alike (hunowned : Unowned commands arguments) (hunnamed : Unnamed commands arguments)
    (hplain : Plain arguments) (seen : List Text) (hdone : Passed done)
    (hhead : (Plasmid.Line.new arguments).head = done ++ rest)
    (hmissing : rest = [] → (Plasmid.Line.new arguments).missingValue = none) :
    ∃ ours theirs,
      (Plasmid.Line.new arguments).scan none rest done.length ⟨seen, false, none⟩ = .ok ours ∧
      (Client.Line.new arguments commands).faults (Client.Line.new arguments commands).commandWords
        (Client.name (Client.Line.new arguments commands).commandWords.texts commands)
          (rest.map toArg) done.length (seen.map Utf8.encode) = .ok theirs ∧
      Ends (Plasmid.Line.new arguments) ours theirs := by
  induction rest generalizing done seen with
  | nil =>
      refine ⟨_, _, rfl, rfl, Ends.passed (hmissing rfl) (commandWords_nil ?_)⟩
      rwa [hhead, List.append_nil]
  | cons argument rest ih =>
      obtain ⟨kind, argument⟩ := argument
      have hmem : (kind, argument) ∈ (Plasmid.Line.new arguments).head :=
        hhead ▸ List.mem_append_right _ List.mem_cons_self
      have hserved := hunowned argument (mem_head hmem)
      have hnext : (Plasmid.Line.new arguments).head = (done ++ [(kind, argument)]) ++ rest := by
        rw [hhead, List.append_assoc, List.singleton_append]
      rw [List.map_cons, Plasmid.Line.scan, Client.Line.faults]
      cases hstr : toStr? argument with
      | none =>
          simp only [toArg, hstr]
          exact ⟨_, _, rfl, rfl, Ends.fault (alike_usage hunowned _ _ _)⟩
      | some text =>
          obtain rfl := toStr?_eq_some.mp hstr
          cases kind with
          | word =>
              obtain ⟨texts, positions, hwords⟩ := client_commandWords hunowned hdone hhead
              have htexts := texts_eq hunowned
              rcases words_cases hunnamed with hnil | ⟨word, words, hcons, -, hname⟩
              · rw [hwords, hnil] at htexts
                cases htexts
              · rw [← htexts] at hcons
                rw [hcons, hname, hwords]
                simp only [toArg, hstr, wordFault_eq]
                exact ⟨_, _, rfl, rfl, Ends.fault (alike_usage hunowned _ _ _)⟩
          | value =>
              obtain ⟨earlier, flag, rfl⟩ := value_after hhead
              have hflag : (Plasmid.Line.new arguments).head =
                  earlier ++ flag :: ((.value, Utf8.encode text) :: rest) := by
                rw [hhead, List.append_assoc, List.singleton_append]
              have hours := before_concat hflag
              have htheirs : (Client.Line.new arguments commands).before
                  (earlier ++ [flag]).length =
                  .ok flag.2 := by
                have hclient := head_eq hunowned
                rw [hflag, List.map_append, List.map_cons] at hclient
                have hcount :
                    (earlier.map toArg ++ [toArg flag]).length = (earlier ++ [flag]).length := by
                  simp
                exact hcount ▸ client_before_concat hclient
              have hfault := valueFault_alike hunowned (hunowned flag.2
                (mem_head (hflag ▸ List.mem_append_right _ List.mem_cons_self))) text
              simp only [toArg, hstr, hours, htheirs, bind, Except.bind]
              revert hfault
              generalize (Plasmid.Line.new arguments).valueFault flag.2 text = ours
              generalize (Client.Line.new arguments commands).valueFault flag.2 (Utf8.encode text) =
                theirs
              rintro (_ | halike)
              · have hrest := ih seen (hdone.snoc (by simp) rfl) hnext (by
                  rintro rfl
                  rw [List.append_nil] at hnext
                  rw [missingValue_eq hnext, if_neg (by simp)])
                rwa [List.length_append, List.length_singleton] at hrest
              · exact ⟨_, _, rfl, rfl, Ends.fault halike⟩
          | flag =>
              have hfault := @flagFault_eq (Client.Line.new arguments commands) done.length _
                (seen.map Utf8.encode) _ hserved (named_not_command hunowned hunnamed)
              have hlast := client_head_next hunowned hnext
              rw [List.length_append, List.length_singleton] at hlast
              rw [any_spells_encode, any_spells_encode, toStringLossy_encode, hlast] at hfault
              simp only [toArg, hstr, hfault, bind, Except.bind, hplain.known_iff hmem,
                List.contains_eq_mem]
              by_cases hknown : text ∈ Plasmid.FLAGS
              swap
              · simp only [hknown, Bool.not_false, if_true, decide_false, Bool.false_eq_true,
                  if_false]
                exact ⟨_, _, rfl, rfl, Ends.fault (alike_usage hunowned _ _ _)⟩
              · have hrepeated := repeated_alike hunowned seen text
                simp only [hknown, Bool.not_true, Bool.false_eq_true, if_false, decide_true,
                  if_true]
                revert hrepeated
                generalize (Plasmid.Line.new arguments).twiceOrClash seen text = ours
                generalize (Client.Line.new arguments commands).repeated (seen.map Utf8.encode)
                  (Utf8.encode text) = theirs
                rintro (_ | halike)
                swap
                · exact ⟨_, _, rfl, rfl, Ends.fault halike⟩
                · cases hneeds : decide (text ∈ VALUE_FLAGS) && rest.isEmpty with
                  | true =>
                      obtain ⟨hvalued, hnil⟩ := Bool.and_eq_true_iff.mp hneeds
                      obtain rfl := List.isEmpty_iff.mp hnil
                      rw [List.append_nil] at hnext
                      have hlate := missingValue_eq hnext
                      rw [if_pos ⟨rfl, by rw [any_spells_encode, hvalued]⟩] at hlate
                      exact ⟨_, _, rfl, rfl, Ends.missing hlate (alike_usage hunowned _ _ _)⟩
                  | false =>
                      have hpassed : passed (.flag, Utf8.encode text) = true := by
                        simp [passed, any_spells_encode, (hplain.known_iff hmem).mpr hknown]
                      have hrest := ih (seen ++ [text]) (hdone.snoc (by simp) hpassed) hnext (by
                        rintro rfl
                        rw [List.append_nil] at hnext
                        rw [List.isEmpty_nil, Bool.and_true] at hneeds
                        rw [missingValue_eq hnext, any_spells_encode, hneeds, if_neg (by simp)])
                      have hname : (Client.Line.new arguments commands).flagName
                          (Utf8.encode text) =
                          Utf8.encode text := by
                        simp [Client.Line.flagName, commands_eq, hserved]
                      rw [List.length_append, List.length_singleton, List.map_append,
                        List.map_singleton] at hrest
                      simp only [Bool.false_eq_true, if_false, hname]
                      exact hrest

end Lines

end Plasmosome.CommandLine
