import Plasmosome.CommandLine.Parity

/-!
# Faults alike
-/

namespace Plasmosome.CommandLine

open Foundation

/-! ## Readings alike -/

/-- The argument a refusal names. -/
def Plasmid.Refusal.argument? (refusal : Plasmid.Refusal) : Option Text :=
  (refusal.field.filter fun field => field.1 = Plasmid.ARGUMENT).map Prod.snd

def Client.ClientError.argument? (error : Client.ClientError) : Option Text :=
  error.fields.lookup Client.ARGUMENT

/-- Both give help, both the version, or both a usage refusal: help and a refusal in one form,
and a refusal that names one argument or none. -/
inductive Alike : Plasmid.Reading → Client.Reading → Prop
  | help {of : Option Plasmid.Command} {topic : Client.Topic} {form : Form} :
      Alike (.help of form) (.help topic form)
  | version : Alike .version .version
  | refuse {refusal : Plasmid.Refusal} {command : Text} {error : Client.ClientError} :
      refusal.code = .invalidArgument → error.code = .invalidArgument →
        refusal.argument? = error.argument? →
          Alike (.refuse refusal) (.refuse command error refusal.form)

section Lines

variable {commands : List Client.Command} {arguments : List OsStr}

/-- The first word of the line, if it has one, is no command's of either table. -/
def Unnamed (commands : List Client.Command) (arguments : List OsStr) : Prop :=
  ∀ word, (Plasmid.Line.new arguments).commandWords.head? = some word →
    Plasmid.command word = none ∧
      ∀ command ∈ commands, ∀ first, command.words.head? = some first → spells word first = false

theorem alike_usage (hunowned : Unowned commands arguments) (message other : Text)
    (argument : Option OsStr) :
    Alike ((Plasmid.Line.new arguments).usage message argument)
      ((Client.Line.new arguments commands).usage other argument) := by
  unfold Client.Line.usage Plasmid.Line.usage
  rw [form_eq hunowned]
  refine Alike.refuse rfl rfl ?_
  cases argument <;> rfl

theorem name_unnamed {words : List OsStr} {word : OsStr}
    (hword : ∀ command ∈ commands, ∀ first, command.words.head? = some first →
        spells word first = false) :
    Client.name (word :: words) commands = .breaks 0 := by
  have hnone : commands.filter (fun command => decide (1 ≤ command.words.length) &&
      (command.words.zip ((word :: words).take 1)).all fun pair => spells pair.2 pair.1) = [] := by
    rw [List.filter_eq_nil_iff]
    intro command hmem hleads
    cases hwords : command.words with
    | nil => simp [hwords] at hleads
    | cons first rest =>
        have hdiffers := hword command hmem first (by rw [hwords]; rfl)
        simp [hwords, hdiffers] at hleads
  rw [Client.name, List.length_cons, Client.nameFrom]
  simp only [hnone]

/-- What the words of a shared line name in the two tables. -/
theorem words_cases (hunnamed : Unnamed commands arguments) :
    (Plasmid.Line.new arguments).commandWords = [] ∨
      ∃ word words, (Plasmid.Line.new arguments).commandWords = word :: words ∧
        Plasmid.command word = none ∧ Client.name (word :: words) commands = .breaks 0 := by
  cases hwords : (Plasmid.Line.new arguments).commandWords with
  | nil => exact Or.inl rfl
  | cons word words =>
      obtain ⟨hcommand, hword⟩ := hunnamed word (by rw [hwords]; rfl)
      exact Or.inr ⟨word, words, rfl, hcommand, name_unnamed hword⟩

theorem commands_eq : (Client.Line.new arguments commands).commands = commands := rfl

/-! ## Help -/

theorem help_alike (hunowned : Unowned commands arguments) (hunnamed : Unnamed commands arguments) :
    ∃ theirs, (Client.Line.new arguments commands).help = .ok theirs ∧
      Alike (Plasmid.Line.new arguments).help theirs := by
  unfold Client.Line.help Plasmid.Line.help
  rw [commands_eq, texts_eq hunowned]
  rcases words_cases hunnamed with hwords | ⟨word, words, hwords, hcommand, hname⟩
  · rw [hwords]
    refine ⟨_, rfl, ?_⟩
    rw [form_eq hunowned]
    exact Alike.help
  · simp only [hwords, hname, hcommand]
    exact ⟨_, rfl, alike_usage hunowned _ _ _⟩

/-! ## One argument -/

theorem spells_encode (text other : Text) :
    spells (Utf8.encode text) other = decide (text = other) := by
  unfold spells
  rw [Bool.eq_iff_iff, beq_iff_eq, decide_eq_true_eq]
  exact Utf8.encode_injective.eq_iff

theorem any_spells_encode (text : Text) (flags : List Text) :
    flags.any (spells (Utf8.encode text)) = decide (text ∈ flags) := by
  rw [Bool.eq_iff_iff, List.any_eq_true, decide_eq_true_eq]
  constructor
  · rintro ⟨flag, hmem, hspells⟩
    rw [spells_encode, decide_eq_true_eq] at hspells
    exact hspells ▸ hmem
  · intro hmem
    exact ⟨text, hmem, by rw [spells_encode, decide_eq_true_eq]⟩

theorem toStr?_eq_some {argument : OsStr} {text : Text} :
    toStr? argument = some text ↔ argument = Utf8.encode text := by
  rw [← @Utf8.decode_eq_ok argument 0 text, toStr?]
  cases Utf8.decode argument 0 <;> simp [Except.toOption]

@[simp] theorem toStringLossy_encode (text : Text) : toStringLossy (Utf8.encode text) = text :=
  Membrane.Probe.fromUtf8Lossy_encode text

theorem mem_map_encode {text : Text} {seen : List Text} :
    Utf8.encode text ∈ seen.map Utf8.encode ↔ text ∈ seen :=
  List.mem_map_of_injective Utf8.encode_injective

/-- A flag is a fault for both scanners, or for neither. -/
inductive FaultAlike : Option Plasmid.Reading → Option Client.Reading → Prop
  | none : FaultAlike none none
  | some {ours : Plasmid.Reading} {theirs : Client.Reading} :
      Alike ours theirs → FaultAlike (some ours) (some theirs)

theorem repeated_alike (hunowned : Unowned commands arguments) (seen : List Text) (flag : Text) :
    FaultAlike ((Plasmid.Line.new arguments).twiceOrClash seen flag)
      ((Client.Line.new arguments commands).repeated (seen.map Utf8.encode) (Utf8.encode flag)) := by
  unfold Plasmid.Line.twiceOrClash Client.Line.repeated
  simp only [List.contains_eq_mem, decide_eq_true_eq, mem_map_encode, toStringLossy_encode]
  split
  next => exact FaultAlike.some (alike_usage hunowned _ _ _)
  next =>
    simp only [spells_encode]
    by_cases hjson : flag = JSON
    · subst hjson
      have hdiffers : JSON ≠ HUMAN := by decide
      by_cases hseen : HUMAN ∈ seen
      · simp only [hseen, if_true, decide_true, Bool.and_self, Bool.true_or]
        exact FaultAlike.some (alike_usage hunowned _ _ _)
      · simp only [hseen, hdiffers, if_true, if_false, decide_true, decide_false, Bool.and_false,
          Bool.false_and, Bool.or_self, Bool.false_eq_true]
        exact FaultAlike.none
    · by_cases hhuman : flag = HUMAN
      · subst hhuman
        by_cases hseen : JSON ∈ seen
        · simp only [hseen, hjson, if_true, if_false, decide_true, decide_false, Bool.and_self,
            Bool.false_and, Bool.or_true]
          exact FaultAlike.some (alike_usage hunowned _ _ _)
        · simp only [hseen, hjson, if_true, if_false, decide_true, decide_false, Bool.and_false,
            Bool.false_and, Bool.or_self, Bool.false_eq_true]
          exact FaultAlike.none
      · simp only [hjson, hhuman, if_false, decide_false, Bool.false_and, Bool.or_self,
          Bool.false_eq_true]
        exact FaultAlike.none

theorem valueFault_alike (hunowned : Unowned commands arguments) {flag : OsStr}
    (hflag : Client.servedFlag commands flag = none) (value : Text) :
    FaultAlike ((Plasmid.Line.new arguments).valueFault flag value)
      ((Client.Line.new arguments commands).valueFault flag (Utf8.encode value)) := by
  have hdeadline : (!Plasmid.isDeadlineMs value) = (Client.deadlineMs value).isNone := by
    rw [isDeadlineMs_eq]
    cases Client.deadlineMs value <;> rfl
  unfold Plasmid.Line.valueFault Client.Line.valueFault
  simp only [toStringLossy_encode, isInstanceName_eq, isNormalAbsolute_eq, hdeadline, commands_eq,
    hflag, Option.bind_none]
  split_ifs
  · exact FaultAlike.some (alike_usage hunowned _ _ _)
  · exact FaultAlike.some (alike_usage hunowned _ _ _)
  · exact FaultAlike.some (alike_usage hunowned _ _ _)
  · exact FaultAlike.none

end Lines

end Plasmosome.CommandLine
