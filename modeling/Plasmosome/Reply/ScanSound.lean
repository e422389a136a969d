import Plasmosome.Reply.Scan

/-!
# What a scan accepts, and what it calls a repeated key

Everything a scan accepts is a document of the grammar without repeated keys.
Only the innermost open object's check of its next key reports a repeat.
-/

namespace Plasmosome.Reply

open Foundation Foundation.Cursor

/-- A result that is no report of a repeated key. -/
def Plain {α : Type} (result : Except ScanError α) : Prop :=
  ∀ error path, result = .error error → error.reason ≠ .duplicateKey path

namespace Plain

variable {α β : Type}

theorem ok (value : α) : Plain (.ok value : Except ScanError α) := by
  intro error path hresult
  cases hresult

theorem error {offset : Nat} {reason : Reason} (hreason : ∀ path, reason ≠ .duplicateKey path) :
    Plain (.error ⟨offset, reason⟩ : Except ScanError α) := by
  intro error path hresult
  cases hresult
  exact hreason path

theorem at' {scanner : Scanner} {reason : Reason} (hreason : ∀ path, reason ≠ .duplicateKey path) :
    Plain (.error (Scanner.error scanner reason) : Except ScanError α) :=
  error hreason

theorem unexpected (scanner : Scanner) (what : String) :
    Plain (.error (Scanner.unexpected scanner what) : Except ScanError α) := by
  rw [Scanner.unexpected]
  split
  next => exact at' (by simp)
  next => exact at' (by simp)

theorem bind {first : Except ScanError α} {next : α → Except ScanError β} (hfirst : Plain first)
    (hnext : ∀ value, Plain (next value)) : Plain (first >>= next) := by
  cases first with
  | error refusal =>
      intro error path hresult
      cases hresult
      exact hfirst refusal path rfl
  | ok value => exact hnext value

theorem map {first : Except ScanError α} (hfirst : Plain first) (next : α → β) :
    Plain (first.map next) := by
  cases first with
  | error refusal =>
      intro error path hresult
      cases hresult
      exact hfirst refusal path rfl
  | ok value => exact ok (next value)

end Plain

namespace Scanner

theorem requiredDigits_plain (scanner : Scanner) : Plain scanner.requiredDigits := by
  rw [requiredDigits]
  split
  next => exact .ok _
  next => exact .at' (by simp)

theorem integer_plain (scanner : Scanner) : Plain scanner.integer := by
  rw [integer]
  split
  next =>
    split
    next => exact .at' (by simp)
    next => exact .ok _
  next =>
    split
    next => exact .ok _
    next => exact .at' (by simp)
  next => exact .at' (by simp)

theorem fraction_plain (scanner : Scanner) : Plain scanner.fraction := by
  rw [fraction]
  split
  next => exact requiredDigits_plain _
  next => exact .ok _

theorem exponent_plain (scanner : Scanner) : Plain scanner.exponent := by
  rw [exponent]
  split
  next => exact requiredDigits_plain _
  next => exact .ok _

/-- Reading a number never reports a repeated key. -/
theorem number_plain (scanner : Scanner) : Plain scanner.number := by
  have hend : Plain scanner.numberEnd :=
    .bind (integer_plain _) fun afterInteger => .bind (fraction_plain _) fun _ => exponent_plain _
  rw [number]
  split
  next error herror =>
    intro other path hresult
    cases hresult
    exact hend error path herror
  next => exact .ok _

theorem hexDigits_plain (escape count value : Nat) (scanner : Scanner) :
    Plain (hexDigits escape count value scanner) := by
  induction count generalizing value scanner with
  | zero => exact .ok _
  | succ count ih =>
      rw [hexDigits]
      split
      next => exact .at' (by simp)
      next =>
        split
        next => exact .error (by simp)
        next => exact ih _ _

theorem scalarValue_plain (start code : Nat) (scanner : Scanner) :
    Plain (scalarValue start code scanner) := by
  rw [scalarValue]
  split
  next => exact .ok _
  next => exact .error (by simp)

theorem unicode_plain (scanner : Scanner) (start : Nat) : Plain (scanner.unicode start) := by
  apply Plain.bind (hexDigits_plain _ _ _ _)
  intro first
  rcases first with ⟨first, afterFirst⟩
  simp only
  split
  next =>
    split
    next => exact .error (by simp)
    next =>
      apply Plain.bind (hexDigits_plain _ _ _ _)
      intro second
      rcases second with ⟨second, afterSecond⟩
      split
      next => exact scalarValue_plain _ _ _
      next => exact .error (by simp)
  next => exact scalarValue_plain _ _ _

theorem escape_plain (scanner : Scanner) : Plain scanner.escape := by
  rw [escape]
  split
  next => exact .at' (by simp)
  next =>
    split
    next => exact .ok _
    next =>
      split
      next => exact unicode_plain _ _
      next => exact .error (by simp)

theorem stringStep_plain {state : List Char × Scanner}
    {result : Except ScanError (String × Scanner)}
    (hstep : stringStep state = .inl result) : Plain result := by
  rw [stringStep] at hstep
  split at hstep
  next =>
    cases hstep
    exact .at' (by simp)
  next =>
    cases hstep
    exact .ok _
  next =>
    split at hstep
    next => cases hstep
    next error herror =>
      cases hstep
      intro other path hresult
      cases hresult
      exact escape_plain _ error path herror
  next =>
    split at hstep
    next =>
      cases hstep
      exact .at' (by simp)
    next => cases hstep

/-- Reading a string never reports a repeated key. -/
theorem string_plain (scanner : Scanner) : Plain scanner.string := by
  refine @Loop.run_induction _ _ stringLoop (fun _ => True) Plain ?_ ?_ _ trivial
  · intro _ _ _ _
    trivial
  · intro _ _ _ hstep
    exact stringStep_plain hstep

/-- Reading a key never reports that it is repeated. -/
theorem key_plain (scanner : Scanner) : Plain scanner.key := by
  rw [key]
  simp only
  split
  next =>
    apply Plain.bind (string_plain _)
    intro read
    rcases read with ⟨read, afterKey⟩
    split
    next => exact .ok _
    next => exact .unexpected _ _
  next => exact .unexpected _ _

theorem literal_plain (scanner : Scanner) (word : List Char) (value : Json) :
    Plain (scanner.literal word value) := by
  rw [literal]
  split
  next => exact .ok _
  next => exact .at' (by simp)

/-- Reading a scalar never reports a repeated key. -/
theorem scalar_plain (scanner : Scanner) : Plain scanner.scalar := by
  rw [scalar]
  split
  next => exact (string_plain _).map _
  next => exact literal_plain _ _ _
  next => exact literal_plain _ _ _
  next => exact literal_plain _ _ _
  next =>
    split
    next => exact (number_plain _).map _
    next => exact .unexpected _ _
  next => exact .unexpected _ _

end Scanner

namespace Scan

variable {start : Scanner}

theorem Settled.of_plain {error : ScanError}
    (hplain : Plain (.error error : Except ScanError Json)) :
    Settled start (.error error) := by
  intro path hpath
  exact absurd hpath (hplain error path rfl)

theorem expect_settled {frames : List Frame} {scanner : Scanner} {result : Except ScanError Json}
    (hstep : expect frames scanner = .inl result) : Settled start result := by
  rw [expect] at hstep
  split at hstep
  next =>
    rw [openArray] at hstep
    split at hstep <;> cases hstep
  next =>
    rw [openObject] at hstep
    split at hstep
    next => cases hstep
    next =>
      split at hstep
      next => cases hstep
      next error herror =>
        cases hstep
        apply Settled.of_plain
        intro other path hresult
        cases hresult
        exact Scanner.key_plain _ error path herror
  next =>
    split at hstep
    next => cases hstep
    next error herror =>
      cases hstep
      apply Settled.of_plain
      intro other path hresult
      cases hresult
      exact Scanner.scalar_plain _ error path herror

theorem holdInArray_settled {outer : List Frame} {items : List Json} {scanner : Scanner}
    {result : Except ScanError Json} (hstep : holdInArray outer items scanner = .inl result) :
    Settled start result := by
  rw [holdInArray] at hstep
  split at hstep
  next => cases hstep
  next =>
    split at hstep
    next => cases hstep
    next =>
      cases hstep
      exact .of_plain (.unexpected _ _)

/-- A repeat is found right after a comma of the innermost object, among its own members. -/
theorem holdInObject_settled {text blank inner after : List Char} {outer : List Frame}
    {object : ObjectFrame} {value : Json} {scanner : Scanner} {result : Except ScanError Json}
    (hopened : Opened text (.object object :: outer)) (hblank : Blank blank)
    (hvalue : Spells inner (.value value)) (hrepeat : value.NoRepeat) (hafter : Blank after)
    (htook : Took start (text ++ (blank ++ (inner ++ after))) scanner)
    (hstep : holdInObject outer (object.take value) scanner = .inl result) :
    Settled start result := by
  obtain ⟨lead, space, membersText, keyText, held, key, houter, hspace, hmembers, hkey, rfl, rfl,
    hkeys, hheld⟩ := Opened.object hopened
  rw [holdInObject] at hstep
  split at hstep
  next stop hcomma =>
    split at hstep
    next error herror =>
      cases hstep
      apply Settled.of_plain
      intro other path hresult
      cases hresult
      exact Scanner.key_plain _ error path herror
    next offset following afterKey hfollowing =>
      rw [ObjectFrame.admitKey_take] at hstep
      split at hstep
      next => cases hstep
      next repeated hrepeated =>
        split at hrepeated
        next hheldAlready =>
          cases hrepeated
          cases hstep
          intro path hpath
          cases hpath
          obtain ⟨before, raw, behind, quote, hbefore, hraw, hbehind, hskipped, hoffset, hrest⟩ :=
            Scanner.key_took hfollowing
          obtain ⟨stopped, hquoted, _⟩ := hrest.split
          have hread := hmembers.member hkey hblank hvalue hafter
          have hvalues : ∀ member ∈ held ++ [(key, value)], member.2.NoRepeat :=
            List.forall_mem_append.mpr ⟨hheld, by simpa using hrepeat⟩
          have hdistinct : ((held ++ [(key, value)]).map Prod.fst).Nodup := by
            simpa [List.map_append] using hkeys
          refine ⟨_, raw, outer, _, following, quote, stopped,
            .members houter hspace hread hdistinct hvalues hbefore, hraw, ?_, hquoted, hoffset,
            ?_, rfl⟩
          · have hwhole := htook.trans ((eat_eq_some.mp hcomma).trans hskipped)
            simpa [List.append_assoc] using hwhole
          · simpa [List.map_append] using hheldAlready
        next => cases hrepeated
  next =>
    split at hstep
    next => cases hstep
    next =>
      cases hstep
      exact .of_plain (.unexpected _ _)

/-- However a scan stops, its result is settled. -/
theorem Read.settled {scan : Scan} {result : Except ScanError Json} (hread : Read start scan)
    (hstep : scan.step = .inl result) : Settled start result := by
  cases hread with
  | expects hopened htook => exact expect_settled hstep
  | holds hopened hblank hvalue hrepeat htook =>
      rename_i frames value scanner
      obtain ⟨after, hafter, hskipped⟩ := Scanner.skipWhitespace_took scanner
      have hwhole := htook.trans hskipped
      rw [List.append_assoc, List.append_assoc] at hwhole
      simp only [Scan.step, hold] at hstep
      rcases frames with _ | ⟨⟨items⟩ | ⟨object⟩, outer⟩
      · simp only at hstep
        split at hstep
        next hend =>
          cases hstep
          cases hopened
          refine ⟨?_, hrepeat⟩
          have hrest := hwhole.rest
          rw [hend, List.append_nil] at hrest
          rw [hrest, List.nil_append]
          exact .document hblank hvalue hafter
        next =>
          cases hstep
          exact .of_plain (.at' (by simp))
      · exact holdInArray_settled hstep
      · exact holdInObject_settled hopened hblank hvalue hrepeat hafter hwhole hstep

/-- However a document is refused, the refusal is settled. -/
theorem document_settled (scanner : Scanner) : Settled scanner (Scanner.document scanner) :=
  @Loop.run_induction _ _ loop (Read scanner) (Settled scanner)
    (fun _ _ hread hstep => hread.step hstep) (fun _ _ hread hstep => hread.settled hstep) _
    (.expects .document (Took.refl scanner))

end Scan

end Plasmosome.Reply
