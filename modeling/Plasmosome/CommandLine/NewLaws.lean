import Plasmosome.CommandLine.ReadingLaws

/-!
# The name of a new plasmid

Plasmid makes a plasmid only for the two words of `plasmid new` and a name, which is
words of letters and digits joined by single hyphens.
-/

namespace Plasmosome.CommandLine.Plasmid

open Foundation

/-! ## Names -/

/-- A name of at most 64 bytes is nonempty words of lower-case letters and digits, with a hyphen
between each two. -/
structure PlasmidName (name : Text) : Prop where
  fits : Utf8.size name ≤ 64
  joined : ∃ words : List Text, words ≠ [] ∧
    (∀ word ∈ words, word ≠ [] ∧ ∀ character ∈ word, character.isLower ∨ character.isDigit) ∧
      name = ['-'].intercalate words

theorem encodeChar_low {character : Char} (hlow : character.toNat < 128) :
    String.utf8EncodeChar character = [UInt8.ofNat character.toNat] := by
  have hbyte : (UInt8.ofNat character.toNat).toNat = character.toNat := by
    rw [UInt8.toNat_ofNat']
    omega
  have hencode := @Utf8.encodeChar_of_lt (UInt8.ofNat character.toNat) (by omega)
  rwa [hbyte, Char.ofNat_toNat] at hencode

theorem isLower_or_isDigit_iff {character : Char} : character.isLower ∨ character.isDigit ↔
    (97 ≤ character.toNat ∧ character.toNat ≤ 122) ∨
    (48 ≤ character.toNat ∧ character.toNat ≤ 57) := by
  simp only [Char.isLower, Char.isDigit, Bool.and_eq_true, decide_eq_true_eq, ge_iff_le,
    UInt32.le_iff_toNat_le]
  rfl

theorem byte_iff {byte : UInt8} : (isAsciiLowercase byte || isAsciiDigit byte) = true ↔
    (97 ≤ byte.toNat ∧ byte.toNat ≤ 122) ∨ (48 ≤ byte.toNat ∧ byte.toNat ≤ 57) := by
  simp only [isAsciiLowercase, isAsciiDigit, Bool.or_eq_true, Bool.and_eq_true, decide_eq_true_eq,
    UInt8.le_iff_toNat_le]
  rfl

theorem all_bytes_iff {word : Text} :
    (∀ byte ∈ Utf8.encode word, (isAsciiLowercase byte || isAsciiDigit byte) = true) ↔
      ∀ character ∈ word, character.isLower ∨ character.isDigit := by
  constructor
  · intro hall character hmem
    -- The first byte of the character is its code.
    obtain ⟨byte, hbyte⟩ := List.exists_mem_of_ne_nil (String.utf8EncodeChar character) (by
      intro hnil
      have hsize := congrArg List.length hnil
      rw [String.length_utf8EncodeChar] at hsize
      exact absurd hsize (Nat.ne_of_gt character.utf8Size_pos))
    have hcode := byte_iff.mp (hall byte (List.mem_flatMap.mpr ⟨character, hmem, hbyte⟩))
    have hval : character.toNat = byte.toNat := Utf8.val_of_mem_encodeChar (by omega) hbyte
    rw [isLower_or_isDigit_iff, hval]
    exact hcode
  · intro hall byte hmem
    obtain ⟨character, hcharacter, hbyte⟩ := List.mem_flatMap.mp hmem
    have hcode := isLower_or_isDigit_iff.mp (hall character hcharacter)
    rw [encodeChar_low (by omega), List.mem_singleton] at hbyte
    rw [byte_iff, hbyte, UInt8.toNat_ofNat']
    omega

theorem isPlasmidName_iff {name : Text} : isPlasmidName name = true ↔ PlasmidName name := by
  unfold isPlasmidName
  simp only [Bool.and_eq_true, decide_eq_true_eq, List.all_eq_true, all_bytes_iff,
    Bool.not_eq_true',
    List.isEmpty_eq_false_iff]
  constructor
  · rintro ⟨hfits, hwords⟩
    exact ⟨hfits, name.splitOn '-', List.splitOn_ne_nil _ _, hwords,
      (List.intercalate_splitOn '-').symm⟩
  · rintro ⟨hfits, words, hsome, hwords, rfl⟩
    refine ⟨hfits, ?_⟩
    rw [List.splitOn_intercalate '-' (fun word hmem hhyphen => ?_) hsome]
    · exact hwords
    · have hcode := isLower_or_isDigit_iff.mp ((hwords word hmem).2 '-' hhyphen)
      revert hcode
      decide

/-- A name does not begin like a flag. -/
theorem PlasmidName.not_flag {name : Text} (hname : PlasmidName name) :
    [45].isPrefixOf (Utf8.encode name) = false := by
  obtain ⟨words, hsome, hwords, rfl⟩ := hname.joined
  cases words with
  | nil => exact absurd rfl hsome
  | cons word rest =>
      obtain ⟨hword, hall⟩ := hwords word List.mem_cons_self
      cases word with
      | nil => exact absurd rfl hword
      | cons first others =>
          have hcode := isLower_or_isDigit_iff.mp (hall first List.mem_cons_self)
          have hfirst : (['-'].intercalate ((first :: others) :: rest)) =
              first :: (['-'].intercalate (others :: rest)) := by
            cases rest <;> rfl
          rw [hfirst, Utf8.encode_cons, encodeChar_low (by omega), List.singleton_append]
          have hbyte : (UInt8.ofNat first.toNat) ≠ 45 := by
            intro heq
            have hnat := congrArg UInt8.toNat heq
            rw [UInt8.toNat_ofNat'] at hnat
            have hdash : (45 : UInt8).toNat = 45 := rfl
            omega
          simp [List.isPrefixOf, Ne.symm hbyte]

/-! ## A new plasmid -/

def NEW : Text := ['n', 'e', 'w']

theorem served_eq_some {word : OsStr} {command : Command} (hserved : served word = some command) :
    word = Utf8.encode NEW := by
  unfold served at hserved
  rw [Option.filter_eq_some_iff] at hserved
  obtain ⟨hfind, hlocal⟩ := hserved
  have hword := List.find?_some hfind
  have honly : ∀ command ∈ COMMANDS, command.serving = .byItself → command.word = NEW := by decide
  have hnew := honly command (List.mem_of_find?_eq_some hfind) (of_decide_eq_true hlocal)
  rw [hnew] at hword
  exact beq_iff_eq.mp hword

section New

variable {line : Line} {arguments : List OsStr} {taken : Command} {final : Line.Scan} {name : Text}

/-- One step of a scan that ends without a fault, where a command is taken: the argument is the
command's word, or the first word after it and a name. -/
theorem scan_cons {argument : OsStr} {index : Nat} {state : Line.Scan}
    (hscan : line.scan (some taken) (classify false (argument :: arguments)) index state =
      .ok (.inr final)) :
    ∃ text, argument = Utf8.encode text ∧
      classify false (argument :: arguments) = (.word, argument) :: classify false arguments ∧
      ((state.atCommand = false ∧
        line.scan (some taken) (classify false arguments) (index + 1)
        { state with atCommand := true } =
          .ok (.inr final)) ∨
      (state.atCommand = true ∧ state.name = none ∧ isPlasmidName text = true ∧
        line.scan (some taken) (classify false arguments) (index + 1)
        { state with name := some text } =
          .ok (.inr final))) := by
  have hclassify : classify false (argument :: arguments) =
      (if [45].isPrefixOf argument then .flag else .word, argument) ::
        classify (decide ((if [45].isPrefixOf argument then Kind.flag else .word) = .flag) &&
          VALUE_FLAGS.any (spells argument)) arguments := rfl
  rw [hclassify] at hscan ⊢
  cases hdash : [45].isPrefixOf argument with
  | true =>
      rw [hdash, if_pos rfl, Line.scan] at hscan
      split at hscan
      next => cases hscan
      next =>
        dsimp only at hscan
        split at hscan <;> cases hscan
  | false =>
      rw [hdash, if_neg Bool.false_ne_true, decide_eq_false (by decide), Bool.false_and,
        Line.scan] at hscan
      rw [if_neg Bool.false_ne_true, decide_eq_false (by decide), Bool.false_and]
      split at hscan
      next => cases hscan
      next text hstr =>
        refine ⟨text, toStr?_eq_some.mp hstr, rfl, ?_⟩
        dsimp only at hscan
        split at hscan
        next hat =>
          rw [Bool.not_eq_true'] at hat
          exact Or.inl ⟨hat, hscan⟩
        next hat =>
          rw [Bool.not_eq_true', Bool.not_eq_false] at hat
          split at hscan
          next => cases hscan
          next hnone =>
            split at hscan
            next hname => exact Or.inr ⟨hat, hnone, hname, hscan⟩
            next => cases hscan

/-- A scan from the start that finds a name passes a command's word and the name alone. -/
theorem scan_eq_name (hscan : line.scan (some taken) (classify false arguments) 0 ⟨[], false,
    none⟩ =
    .ok (.inr final)) (hname : final.name = some name) :
    ∃ first, arguments = [first, Utf8.encode name] ∧ isPlasmidName name = true ∧
      classify false arguments = [(.word, first), (.word, Utf8.encode name)] := by
  cases arguments with
  | nil =>
      cases hscan
      cases hname
  | cons first arguments =>
      obtain ⟨-, -, hfirst, ⟨-, hscan⟩ | ⟨hat, -⟩⟩ := scan_cons hscan
      swap
      · cases hat
      cases arguments with
      | nil =>
          cases hscan
          cases hname
      | cons second arguments =>
          obtain ⟨text, rfl, hsecond, ⟨hat, -⟩ | ⟨-, -, hisName, hscan⟩⟩ := scan_cons hscan
          · cases hat
          cases arguments with
          | nil =>
              cases hscan
              cases hname
              exact ⟨first, rfl, hisName, by rw [hfirst, hsecond]; rfl⟩
          | cons third arguments =>
              obtain ⟨-, -, -, ⟨hat, -⟩ | ⟨-, hnone, -⟩⟩ := scan_cons hscan
              · cases hat
              · cases hnone

theorem Reading.Refuses.ne_new {reading : Reading}
    (hrefuses : reading.Refuses) : reading ≠ .new name := by
  obtain ⟨refusal, rfl⟩ := hrefuses
  nofun

/-- The scan of a whole line. -/
theorem scan_line (command : Option Command) (state : Line.Scan) :
    ∃ outcome, (Line.new arguments).scan command (Line.new arguments).head 0 state = .ok outcome ∧
      ∀ fault, outcome = .inl fault → fault.Refuses :=
  @scan_total arguments [] _ command state (List.nil_append _).symm

theorem parse_total : ∃ reading, (Line.new arguments).parse = .ok reading := by
  unfold Line.parse
  obtain ⟨outcome, hscan, -⟩ := @scan_line arguments
    ((Line.new arguments).commandWords.head?.bind served) ⟨[], false, none⟩
  simp only [hscan, bind, Except.bind]
  split
  next => exact ⟨_, rfl⟩
  next =>
    split
    next => exact ⟨_, rfl⟩
    next =>
      split
      next => exact ⟨_, rfl⟩
      next => split <;> exact ⟨_, rfl⟩

theorem read_total (arguments : List OsStr) : ∃ reading, read arguments = .ok reading := by
  unfold read
  dsimp only
  split
  next => exact ⟨_, rfl⟩
  next =>
    split
    next => exact ⟨_, rfl⟩
    next =>
      split
      next => exact ⟨_, rfl⟩
      next =>
        split
        next => exact ⟨_, rfl⟩
        next => exact parse_total

theorem parse_eq_new (hparse : (Line.new arguments).parse = .ok (.new name)) :
    (Line.new arguments).dashes = false ∧ ∃ taken final,
      (Line.new arguments).commandWords.head?.bind served = some taken ∧
      (Line.new arguments).scan (some taken) (Line.new arguments).head 0 ⟨[], false, none⟩ =
        .ok (.inr final) ∧ final.name = some name := by
  unfold Line.parse at hparse
  obtain ⟨outcome, hscan, hrefuses⟩ := @scan_line arguments
    ((Line.new arguments).commandWords.head?.bind served) ⟨[], false, none⟩
  simp only [hscan, bind, Except.bind] at hparse
  cases outcome with
  | inl fault => exact absurd (Except.ok.inj hparse) (hrefuses fault rfl).ne_new
  | inr final =>
      dsimp only at hparse
      split at hparse
      next hfault => exact absurd (Except.ok.inj hparse) (Line.missingValue_refuses hfault).ne_new
      next =>
        split at hparse
        next => cases hparse
        next hdashes =>
          split at hparse
          next => cases hparse
          next => cases hparse
          next taken found hcommand hfound =>
            cases hparse
            rw [Bool.not_eq_true] at hdashes
            rw [hcommand] at hscan
            exact ⟨hdashes, taken, final, hcommand, hscan, hfound⟩

theorem help_ne_new : (Line.new arguments).help ≠ .new name := by
  unfold Line.help
  dsimp only
  split
  next => nofun
  next =>
    split
    next => exact (Line.usage_refuses _ _).ne_new
    next =>
      split
      next => exact (Line.usage_refuses _ _).ne_new
      next => nofun

theorem read_eq_parse (hread : read arguments = .ok (.new name)) :
    (Line.new arguments).parse = .ok (.new name) := by
  unfold read at hread
  dsimp only at hread
  split at hread
  next => exact absurd (Except.ok.inj hread) help_ne_new
  next =>
    split at hread
    next => cases hread
    next =>
      split at hread
      next => cases hread
      next =>
        split at hread
        next =>
          unfold Line.notServed at hread
          split at hread
          next hfault => exact absurd (Except.ok.inj hread) (Line.formFault_refuses hfault).ne_new
          next => cases hread
        next => exact hread

theorem new_of_read (hread : read arguments = .ok (.new name)) :
    arguments = [Utf8.encode NEW, Utf8.encode name] ∧ PlasmidName name := by
  obtain ⟨hdashes, taken, final, hserved, hscan, hname⟩ := parse_eq_new (read_eq_parse hread)
  obtain ⟨first, htaken, hisName, hclassify⟩ := scan_eq_name hscan hname
  have hwhole : arguments.take ((arguments.findIdx? fun argument => spells argument DASHES).getD
      arguments.length) = arguments := List.take_of_length_le (not_lt.mp
      (of_decide_eq_false hdashes))
  have hwords : (Line.new arguments).commandWords = [first, Utf8.encode name] := by
    have hhead : (Line.new arguments).head = [(.word, first), (.word, Utf8.encode name)] :=
      hclassify
    unfold Line.commandWords
    rw [hhead]
    rfl
  rw [hwords] at hserved
  rw [hwhole] at htaken
  rw [htaken, served_eq_some hserved]
  exact ⟨rfl, isPlasmidName_iff.mp hisName⟩

theorem read_of_new (hname : PlasmidName name) :
    read [Utf8.encode NEW, Utf8.encode name] = .ok (.new name) := by
  have hspells : ∀ flag : Text, [45].isPrefixOf (Utf8.encode flag) = true →
      spells (Utf8.encode name) flag = false := by
    intro flag hflag
    rw [spells_encode, decide_eq_false_iff_not]
    rintro rfl
    rw [hname.not_flag] at hflag
    cases hflag
  have hnew : ∀ flag : Text, flag ≠ NEW → spells (Utf8.encode NEW) flag = false := by
    intro flag hflag
    rw [spells_encode, decide_eq_false_iff_not]
    exact fun heq => hflag heq.symm
  have hline : Line.new [Utf8.encode NEW, Utf8.encode name] =
      ⟨[(.word, Utf8.encode NEW), (.word, Utf8.encode name)], false⟩ := by
    have hfind : [Utf8.encode NEW, Utf8.encode name].findIdx?
        (fun argument => spells argument DASHES) =
        none := by
      simp [List.findIdx?_cons, hspells DASHES (by decide), hnew DASHES (by decide)]
    unfold Line.new
    rw [hfind]
    simp [classify, hname.not_flag, show [45].isPrefixOf (Utf8.encode NEW) = false by decide]
  have hunserved : unserved (Utf8.encode NEW) = none := by decide
  have hserved : served (Utf8.encode NEW) = some ⟨NEW, 1, .byItself⟩ := by decide
  have hwords : (⟨[(.word, Utf8.encode NEW), (.word, Utf8.encode name)],
      false⟩ : Line).commandWords =
      [Utf8.encode NEW, Utf8.encode name] := rfl
  have hscan : (⟨[(.word, Utf8.encode NEW), (.word, Utf8.encode name)], false⟩ : Line).scan
      (some ⟨NEW, 1, .byItself⟩) [(.word, Utf8.encode NEW), (.word, Utf8.encode name)] 0
        ⟨[], false, none⟩ = .ok (.inr ⟨[], true, some name⟩) := by
    have hfirst : toStr? (Utf8.encode NEW) = some NEW := toStr?_eq_some.mpr rfl
    have hsecond : toStr? (Utf8.encode name) = some name := toStr?_eq_some.mpr rfl
    simp only [Line.scan, hfirst, hsecond, isPlasmidName_iff.mpr hname, Bool.not_false,
      Bool.not_true,
      if_true, Bool.false_eq_true, if_false]
  unfold read
  rw [hline]
  simp only [Line.anywhere, List.any_cons, List.any_nil, hspells SHORT_HELP (by decide),
    hspells HELP (by decide), hspells VERSION (by decide), hnew SHORT_HELP (by decide),
    hnew HELP (by decide), hnew VERSION (by decide), Bool.or_self, Bool.false_eq_true, if_false,
    List.cons.injEq, reduceCtorEq, and_false, hwords, List.head?_cons, Option.bind_some, hunserved]
  unfold Line.parse
  simp only [hwords, List.head?_cons, Option.bind_some, hserved, hscan, bind, Except.bind]
  rfl

theorem read_eq_new_iff : read arguments = .ok (.new name) ↔
    arguments = [Utf8.encode NEW, Utf8.encode name] ∧ PlasmidName name := by
  refine ⟨new_of_read, ?_⟩
  rintro ⟨rfl, hname⟩
  exact read_of_new hname

end New

end Plasmosome.CommandLine.Plasmid

namespace Plasmosome.CommandLine

open Foundation

/-- The two binaries read a shared line alike, against any table of the client's and with the same
rules for values; and plasmid, which never panics, makes a plasmid for its own name alone. -/
theorem reads_alike :
    (∀ (commands : List Client.Command) (arguments : List OsStr),
      Unowned commands arguments → Unnamed commands arguments →
        ∃ ours theirs, Plasmid.read arguments = .ok ours ∧
        Client.read arguments commands = .ok theirs ∧
          Alike ours theirs) ∧
    (∀ text, Plasmid.isInstanceName text = Client.isInstanceName text) ∧
    (∀ path, Plasmid.isNormalAbsolute path = Client.isNormalAbsolute path) ∧
    (∀ text, Plasmid.isDeadlineMs text = (Client.deadlineMs text).isSome) ∧
    (∀ arguments name, Plasmid.read arguments = .ok (.new name) ↔
      arguments = [Utf8.encode Plasmid.NEW, Utf8.encode name] ∧ Plasmid.PlasmidName name) ∧
    ∀ arguments, ∃ reading, Plasmid.read arguments = .ok reading :=
  ⟨fun _ _ => read_alike, isInstanceName_eq, isNormalAbsolute_eq, isDeadlineMs_eq,
    fun _ _ => Plasmid.read_eq_new_iff, Plasmid.read_total⟩

/-- A line that both binaries read, against no command of the client's. -/
theorem reads_alike_version : ∃ ours theirs,
    Plasmid.read [Utf8.encode "--version".toList] = .ok ours ∧
      Client.read [Utf8.encode "--version".toList] [] = .ok theirs ∧ Alike ours theirs := by
  refine reads_alike.1 [] [Utf8.encode "--version".toList] ?_ ?_
  · intro argument _
    rfl
  · intro word hword
    have hnone : (Plasmid.Line.new [Utf8.encode "--version".toList]).commandWords.head? = none := by
      decide +kernel
    cases hnone.symm.trans hword

end Plasmosome.CommandLine
