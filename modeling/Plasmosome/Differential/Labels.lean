import Plasmosome.Differential.Normalize

/-!
# The labels of ruled values

The rules of a probe replace each value by a label that depends on the values
seen with it. A label tells the number of a value and nothing else.
-/

namespace Plasmosome.Differential

open Foundation Std

variable {F : Type} [Floats F]

/-! ## One field -/

/-- What a value of a field is replaced by, once the values seen with it are known. -/
def label (kind : RuleKind) (seen : List (Value F)) (value : Value F) : Value F :=
  match numbering kind with
  | .across shared => placeholder shared seen value
  | .rank | .within => placeholder kind seen value
  | .none => .string ("<" ++ kind.name ++ ">")

/-- The values a field's values are numbered among. -/
def Rule.seen (rule : Rule) (across : RuleKind → List (Value F)) (value : Value F) :
    List (Value F) :=
  match numbering rule.kind with
  | .across shared => across shared
  | .within => addUnseen [] value.values
  | .rank => (addUnseen [] value.values).mergeSort fun left right => (earlier left right).isLE
  | .none => []

omit [Floats F] in
theorem mapValues_congr {value : Value F} {first second : Value F → Value F}
    (hsame : ∀ item ∈ value.values, first item = second item) :
    value.mapValues first = value.mapValues second := by
  cases value with
  | array items => exact congrArg Value.array (List.map_congr_left hsame)
  | _ => exact hsame _ List.mem_cons_self

/-- The field is replaced, and only the values of its kind are seen. -/
theorem normalizeRule_ok {lane : Lane} {state next : Normalizing F} {rule : Rule}
    (hnext : normalizeRule lane state rule = .ok next) :
    state.fields[rule.field]? = none ∧ next = state ∨
    ∃ value, state.fields[rule.field]? = some value ∧ rule.fits value = true ∧
      next.fields = state.fields.insert rule.field
        (value.mapValues (label rule.kind (rule.seen next.across value))) ∧
      ∀ kind, next.across kind =
        if numbering rule.kind = .across kind then addUnseen (state.across kind) value.values
        else state.across kind := by
  unfold normalizeRule at hnext
  split at hnext
  next hnone =>
    cases hnext
    exact .inl ⟨hnone, rfl⟩
  next value hvalue =>
    split at hnext
    next hfits =>
      refine .inr ⟨value, hvalue, hfits, ?_⟩
      split at hnext
      next shared hshared =>
        cases hnext
        refine ⟨?_, fun kind => ?_⟩
        · have hlabel : label rule.kind (rule.seen (Function.update state.across shared
              (addUnseen (state.across shared) value.values)) value) =
              placeholder shared (addUnseen (state.across shared) value.values) := by
            funext item
            simp only [label, Rule.seen, hshared, Function.update_self]
          rw [hlabel]
        · change Function.update state.across shared _ kind = _
          by_cases hkind : shared = kind
          · subst hkind
            rw [Function.update_self, if_pos hshared]
          · rw [Function.update_of_ne (Ne.symm hkind), if_neg]
            rw [hshared]
            exact fun heq => hkind (Numbering.across.inj heq)
      next hwithin =>
        cases hnext
        refine ⟨?_, fun kind => by rw [hwithin, if_neg nofun]⟩
        have hlabel : label rule.kind (rule.seen state.across value) =
            placeholder rule.kind (addUnseen [] value.values) := by
          funext item
          simp only [label, Rule.seen, hwithin]
        rw [hlabel]
      next hrank =>
        cases hnext
        refine ⟨?_, fun kind => by rw [hrank, if_neg nofun]⟩
        have hlabel : label rule.kind (rule.seen state.across value) =
            placeholder rule.kind ((addUnseen [] value.values).mergeSort fun left right =>
              (earlier left right).isLE) := by
          funext item
          simp only [label, Rule.seen, hrank]
        rw [hlabel]
      next hplain =>
        cases hnext
        refine ⟨?_, fun kind => by rw [hplain, if_neg nofun]⟩
        have hlabel : label rule.kind (rule.seen state.across value) =
            fun _ => .string ("<" ++ rule.kind.name ++ ">") := by
          funext item
          simp only [label, hplain]
        rw [hlabel]
    next => cases hnext

/-! ## All fields -/

/-- The values of the fields numbered with a kind, in the order of the rules. -/
def kindValues (kind : RuleKind) (rules : List Rule) (fields : FieldMap F) : List (Value F) :=
  rules.flatMap fun rule =>
    if numbering rule.kind = .across kind then (fields[rule.field]?.map Value.values).getD []
    else []

/-- Values seen later change no label. -/
theorem label_seen_congr {rule : Rule} {across later : RuleKind → List (Value F)} {value : Value F}
    (hlater : ∀ kind, across kind <+: later kind)
    (hseen : ∀ kind, numbering rule.kind = .across kind → ∀ item ∈ value.values,
      item ∈ across kind) :
    value.mapValues (label rule.kind (rule.seen across value)) =
      value.mapValues (label rule.kind (rule.seen later value)) := by
  refine mapValues_congr fun item hitem => ?_
  cases hnumbering : numbering rule.kind with
  | across kind =>
      simp only [label, Rule.seen, hnumbering, placeholder,
        countBefore_of_prefix (hlater kind) (hseen kind hnumbering item hitem)]
  | rank => simp only [label, Rule.seen, hnumbering]
  | within => simp only [label, Rule.seen, hnumbering]
  | none => simp only [label, hnumbering]

omit [Floats F] in
theorem kindValues_cons (kind : RuleKind) (rule : Rule) (rest : List Rule) (fields : FieldMap F) :
    kindValues kind (rule :: rest) fields =
      (if numbering rule.kind = .across kind then
        (fields[rule.field]?.map Value.values).getD [] else []) ++ kindValues kind rest fields :=
  List.flatMap_cons

omit [Floats F] in
theorem kindValues_congr {kind : RuleKind} {rules : List Rule} {first second : FieldMap F}
    (hsame : ∀ rule ∈ rules, first[rule.field]? = second[rule.field]?) :
    kindValues kind rules first = kindValues kind rules second := by
  unfold kindValues
  apply List.flatMap_congr
  intro rule hrule
  rw [hsame rule hrule]

theorem run_ok {lane : Lane} {rules : List Rule} {state after : Normalizing F}
    (hnodup : (rules.map Rule.field).Nodup)
    (hrun : rules.foldlM (normalizeRule lane) state = .ok after) :
    (∀ kind, after.across kind = addUnseen (state.across kind) (kindValues kind rules state.fields)) ∧
    (∀ field ∉ rules.map Rule.field, after.fields[field]? = state.fields[field]?) ∧
    ∀ rule ∈ rules, after.fields[rule.field]? = state.fields[rule.field]?.map (fun value =>
        value.mapValues (label rule.kind (rule.seen after.across value))) ∧
      ∀ value, state.fields[rule.field]? = some value → rule.fits value = true := by
  induction rules generalizing state with
  | nil =>
      cases hrun
      exact ⟨fun _ => rfl, fun _ _ => rfl, nofun⟩
  | cons rule rest ih =>
      obtain ⟨hfresh, hrest⟩ := List.nodup_cons.mp hnodup
      rw [List.foldlM_cons, bind_eq_ok] at hrun
      obtain ⟨next, hfirst, hloop⟩ := hrun
      obtain ⟨hacross, hkept, hruled⟩ := ih hrest hloop
      rcases normalizeRule_ok hfirst with ⟨hnone, rfl⟩ | ⟨value, hvalue, hfits, hfields, hseen⟩
      · refine ⟨fun kind => ?_, fun field hfield => ?_, List.forall_mem_cons.mpr ⟨⟨?_, ?_⟩, hruled⟩⟩
        · rw [hacross, kindValues_cons, hnone]
          simp
        · exact hkept field fun hmem => hfield (List.mem_cons_of_mem _ hmem)
        · rw [hkept rule.field hfresh, hnone]
          rfl
        · intro value hvalue
          rw [hnone] at hvalue
          cases hvalue
      · have hothers : ∀ other ∈ rest, next.fields[other.field]? = state.fields[other.field]? := by
          intro other hother
          rw [hfields, OrderedMap.getElem?_insert', if_neg]
          exact fun heq => hfresh (heq ▸ List.mem_map_of_mem hother)
        have hlater : ∀ kind, next.across kind <+: after.across kind := by
          intro kind
          rw [hacross]
          exact prefix_addUnseen _ _
        have hsees : ∀ kind, numbering rule.kind = .across kind → ∀ item ∈ value.values,
            item ∈ next.across kind := by
          intro kind hkind item hitem
          rw [hseen, if_pos hkind]
          exact mem_addUnseen.mpr (.inr hitem)
        refine ⟨fun kind => ?_, fun field hfield => ?_, List.forall_mem_cons.mpr ⟨⟨?_, ?_⟩, ?_⟩⟩
        · rw [hacross, kindValues_cons, addUnseen_append, hseen, hvalue,
            kindValues_congr hothers]
          split
          · rfl
          · rfl
        · rw [hkept field fun hmem => hfield (List.mem_cons_of_mem _ hmem), hfields,
            OrderedMap.getElem?_insert', if_neg]
          exact fun heq => hfield (heq ▸ List.mem_cons_self)
        · rw [hkept rule.field hfresh, hfields, OrderedMap.getElem?_insert', if_pos rfl, hvalue,
            Option.map_some, label_seen_congr hlater hsees]
        · intro other hother
          rw [hvalue] at hother
          cases hother
          exact hfits
        · intro other hother
          have hsame := hothers other hother
          rw [← hsame]
          exact hruled other hother

/-! ## Pairs of values -/

/-- Both fields hold a single value, or lists of the same length. -/
def SameShape : Value F → Value F → Prop
  | .array firsts, .array seconds => firsts.length = seconds.length
  | .array _, _ => False
  | _, .array _ => False
  | _, _ => True

/-- The values of two fields, paired by position. -/
def pairsOf (first second : Value F) : List (Value F × Value F) := first.values.zip second.values

omit [Floats F] in
theorem SameShape.length_eq {first second : Value F} (hshape : SameShape first second) :
    first.values.length = second.values.length := by
  cases first <;> cases second <;> first | exact hshape | exact hshape.elim | rfl

omit [Floats F] in
theorem SameShape.map_fst {first second : Value F} (hshape : SameShape first second) :
    (pairsOf first second).map Prod.fst = first.values :=
  List.map_fst_zip hshape.length_eq.le

omit [Floats F] in
theorem SameShape.map_snd {first second : Value F} (hshape : SameShape first second) :
    (pairsOf first second).map Prod.snd = second.values :=
  List.map_snd_zip hshape.length_eq.ge

theorem map_eq_map_iff_zip {α β γ : Type*} {f : α → γ} {g : β → γ} {firsts : List α}
    {seconds : List β} : firsts.map f = seconds.map g ↔
      firsts.length = seconds.length ∧ ∀ pair ∈ firsts.zip seconds, f pair.1 = g pair.2 := by
  rw [← List.forall₂_eq_eq_eq, List.forall₂_map_left_iff, List.forall₂_map_right_iff,
    List.forall₂_iff_zip]
  exact and_congr_right fun _ =>
    ⟨fun hpairs _ hpair => hpairs hpair, fun hpairs _ _ hpair => hpairs _ hpair⟩

theorem label_ne_array {kind : RuleKind} {seen : List (Value F)} {value : Value F}
    {items : List (Value F)} : label kind seen value ≠ .array items := by
  unfold label
  split <;> nofun

/-- Labels are no lists, so fields labelled alike have the same shape. -/
theorem mapValues_label_eq_iff {kind kind' : RuleKind} {seen seen' : List (Value F)}
    {first second : Value F} :
    first.mapValues (label kind seen) = second.mapValues (label kind' seen') ↔
      SameShape first second ∧
        ∀ pair ∈ pairsOf first second, label kind seen pair.1 = label kind' seen' pair.2 := by
  have hsingle : ∀ {a b : Value F}, (∀ pair ∈ [(a, b)],
      label kind seen pair.1 = label kind' seen' pair.2) ↔
        label kind seen a = label kind' seen' b := fun {a b} => List.forall_mem_singleton
  cases first with
  | array firsts =>
      cases second with
      | array seconds =>
          change Value.array _ = Value.array _ ↔ _
          rw [Value.array.injEq, map_eq_map_iff_zip]
          rfl
      | _ =>
          refine iff_of_false (fun heq => ?_) fun hshape => hshape.1
          exact label_ne_array heq.symm
  | _ =>
      cases second with
      | array seconds =>
          refine iff_of_false (fun heq => ?_) fun hshape => hshape.1
          exact label_ne_array heq
      | _ =>
          change label _ _ _ = label _ _ _ ↔ True ∧ ∀ pair ∈ [_], _
          rw [hsingle, true_and]

/-! ## Placeholders -/

theorem toString_nat_inj {first second : Nat} :
    toString first = toString second ↔ first = second := by
  refine ⟨fun heq => ?_, congrArg _⟩
  have hread : first.repr.toNat? = second.repr.toNat? := congrArg String.toNat? heq
  rw [Nat.toNat?_repr, Nat.toNat?_repr] at hread
  exact Option.some.inj hread

/-- A placeholder tells the number of a value, and nothing else. -/
theorem placeholder_eq_iff {kind : RuleKind} {seen seen' : List (Value F)}
    {first second : Value F} : placeholder kind seen first = placeholder kind seen' second ↔
      countBefore seen first = countBefore seen' second := by
  rw [placeholder, placeholder, Value.string.injEq, String.append_left_inj,
    String.append_right_inj, toString_nat_inj, Nat.add_left_cancel_iff]

/-! ## Ranks -/

/-- Where a number stands among numbers of its sort. -/
def rankOf (value : Value F) : ℤ ⊕ₗ F :=
  match whole value with
  | some number => Sum.inlₗ number
  | none => Sum.inrₗ (fraction value)

/-- The values are numbers, and all floats or none. -/
def OneSort (values : List (Value F)) : Prop :=
  (∀ value ∈ values, value.isNumber = true) ∧
    ∀ value ∈ values, ∀ other ∈ values, value.isF64 = other.isF64

omit [Floats F] in
theorem whole_posInt (value : UInt64) :
    whole (.number (.posInt value) : Value F) = some (value.toNat : Int) := by
  have hsigned : Value.asI64 (.number (.posInt value) : Value F) =
      if value.toNat < 2 ^ 63 then some (value.toNat : Int) else none := rfl
  unfold whole
  rw [hsigned]
  split
  · rfl
  · rfl

omit [Floats F] in
theorem whole_negInt (value : Int64) (negative : value < 0) :
    whole (.number (.negInt value negative) : Value F) = some value.toInt := rfl

omit [Floats F] in
theorem whole_float (value : F) : whole (.number (.float value)) = none := rfl

omit [Floats F] in
/-- No integer is written in two ways. -/
theorem whole_inj {first second : Value F} (hfirst : first.isNumber = true)
    (hsecond : second.isNumber = true) {number : Int} (hwhole : whole first = some number)
    (hwhole' : whole second = some number) : first = second := by
  have hnegative : ∀ value : Int64, value < 0 → value.toInt < 0 := fun value hvalue => by
    rwa [Int64.lt_iff_toInt_lt, Int64.toInt_zero] at hvalue
  cases first with
  | number first =>
      cases second with
      | number second =>
          cases first with
          | posInt first =>
              cases second with
              | posInt second =>
                  rw [whole_posInt, Option.some.injEq] at hwhole hwhole'
                  have hsame : first = second := UInt64.toNat_inj.mp (by omega)
                  rw [hsame]
              | negInt second negative =>
                  rw [whole_posInt, Option.some.injEq] at hwhole
                  rw [whole_negInt, Option.some.injEq] at hwhole'
                  have hbelow := hnegative second negative
                  omega
              | float second =>
                  rw [whole_float] at hwhole'
                  cases hwhole'
          | negInt first negative =>
              cases second with
              | posInt second =>
                  rw [whole_negInt, Option.some.injEq] at hwhole
                  rw [whole_posInt, Option.some.injEq] at hwhole'
                  have hbelow := hnegative first negative
                  omega
              | negInt second negative' =>
                  rw [whole_negInt, Option.some.injEq] at hwhole hwhole'
                  have hsame : first = second := Int64.toInt_inj.mp (hwhole.trans hwhole'.symm)
                  subst hsame
                  rfl
              | float second =>
                  rw [whole_float] at hwhole'
                  cases hwhole'
          | float first =>
              rw [whole_float] at hwhole
              cases hwhole
      | _ => cases hsecond
  | _ => cases hfirst

omit [Floats F] in
/-- Two numbers of one sort are both integers or both floats. -/
theorem sort_cases {first second : Value F} (hfirst : first.isNumber = true)
    (hsecond : second.isNumber = true) (hsort : first.isF64 = second.isF64) :
    (∃ number other, whole first = some number ∧ whole second = some other) ∨
      ∃ number other, first = .number (.float number) ∧ second = .number (.float other) := by
  cases first with
  | number first =>
      cases second with
      | number second =>
          cases first with
          | float first =>
              cases second with
              | float second => exact .inr ⟨first, second, rfl, rfl⟩
              | _ => cases hsort
          | posInt first =>
              cases second with
              | posInt second => exact .inl ⟨_, _, whole_posInt first, whole_posInt second⟩
              | negInt second negative =>
                  exact .inl ⟨_, _, whole_posInt first, whole_negInt second negative⟩
              | float _ => cases hsort
          | negInt first negative =>
              cases second with
              | posInt second =>
                  exact .inl ⟨_, _, whole_negInt first negative, whole_posInt second⟩
              | negInt second negative' =>
                  exact .inl ⟨_, _, whole_negInt first negative, whole_negInt second negative'⟩
              | float _ => cases hsort
      | _ => cases hsecond
  | _ => cases hfirst

theorem rankOf_inj {values : List (Value F)} (hsort : OneSort values) {first second : Value F}
    (hfirst : first ∈ values) (hsecond : second ∈ values) (hrank : rankOf first = rankOf second) :
    first = second := by
  have hnumber := hsort.1 first hfirst
  have hnumber' := hsort.1 second hsecond
  rcases sort_cases hnumber hnumber' (hsort.2 first hfirst second hsecond) with
    ⟨number, other, hwhole, hwhole'⟩ | ⟨number, other, rfl, rfl⟩
  · simp only [rankOf, hwhole, hwhole'] at hrank
    have hsame : number = other := Sum.inl_injective (toLex.injective hrank)
    exact whole_inj hnumber hnumber' hwhole (hsame ▸ hwhole')
  · have hsame : number = other := Sum.inr_injective (toLex.injective hrank)
    rw [hsame]

/-- Among values of one sort, which is earlier is told by the ranks. -/
theorem earlier_isLE {values : List (Value F)} (hsort : OneSort values) {first second : Value F}
    (hfirst : first ∈ values) (hsecond : second ∈ values) :
    (earlier first second).isLE = decide (rankOf first ≤ rankOf second) := by
  rw [Bool.eq_iff_iff, decide_eq_true_iff, ← Ordering.ne_gt_iff_isLE]
  rcases sort_cases (hsort.1 first hfirst) (hsort.1 second hsecond)
      (hsort.2 first hfirst second hsecond) with
    ⟨number, other, hwhole, hwhole'⟩ | ⟨number, other, rfl, rfl⟩
  · simp only [earlier, rankOf, hwhole, hwhole']
    exact compare_le_iff_le.trans Sum.Lex.inl_le_inl_iff.symm
  · exact compare_le_iff_le.trans Sum.Lex.inr_le_inr_iff.symm

theorem numbering_eq_rank {kind : RuleKind} : numbering kind = .rank ↔ kind = .systemTime := by
  cases kind <;> simp [numbering]

omit [Floats F] in
/-- The times a rule lets through are of one sort. -/
theorem oneSort_of_fits {rule : Rule} {value : Value F} (hrank : numbering rule.kind = .rank)
    (hfits : rule.fits value = true) : OneSort value.values := by
  unfold Rule.fits at hfits
  rw [Bool.and_eq_true, List.all_eq_true] at hfits
  obtain ⟨hholds, hunmixed⟩ := hfits
  rw [numbering_eq_rank.mp hrank] at hholds hunmixed
  refine ⟨hholds, fun first hfirst second hsecond => ?_⟩
  by_contra hne
  refine absurd hunmixed ?_
  simp only [numbering, decide_true, Bool.true_and, Bool.not_eq_true', Bool.not_eq_false,
    Bool.and_eq_true, List.any_eq_true]
  cases hfloat : first.isF64 with
  | true =>
      rw [hfloat, Bool.true_eq, Bool.not_eq_true] at hne
      exact ⟨⟨first, hfirst, hfloat⟩, second, hsecond, hne⟩
  | false =>
      rw [hfloat, Bool.false_eq, Bool.not_eq_false] at hne
      exact ⟨⟨second, hsecond, hne⟩, first, hfirst, hfloat⟩

end Plasmosome.Differential
