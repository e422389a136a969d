import Plasmosome.Differential.Labels

/-!
# What normalization hides

Two observations normalize alike exactly when they agree outside the rules and
their ruled values correspond: one to one within each numbering, in order where
they are ranked, and in any way where they are durations.
-/

namespace Plasmosome.Differential

open Foundation Std

variable {F : Type} [Floats F]

/-! ## Fields labelled alike -/

/-- The values of a field in two observations, paired by position. -/
def fieldPairs (first second : FieldMap F) (field : String) : List (Value F × Value F) :=
  match first[field]?, second[field]? with
  | some first, some second => pairsOf first second
  | _, _ => []

/-- The first of two times of one sort comes before the second: the smaller integer, or the
smaller float. -/
inductive Before : Value F → Value F → Prop
  | unsigned {first second : UInt64} (less : first < second) :
      Before (.number (.posInt first)) (.number (.posInt second))
  | signed {first second : Int64} {negative : first < 0} {negative' : second < 0}
      (less : first < second) :
      Before (.number (.negInt first negative)) (.number (.negInt second negative'))
  | belowZero {first : Int64} {second : UInt64} {negative : first < 0} :
      Before (.number (.negInt first negative)) (.number (.posInt second))
  | float {first second : F} (less : first < second) :
      Before (.number (.float first)) (.number (.float second))

/-- One bijection takes each value to its pair, and keeps which of two comes before the other. -/
def InOrder (pairs : Value F → Value F → Prop) : Prop :=
  Relabels pairs ∧ ∀ a b a' b', pairs a b → pairs a' b' → (Before a a' ↔ Before b b')

/-- The kinds whose values are named, each with the kind whose names it takes. -/
inductive NamedAs : RuleKind → RuleKind → Prop
  | pid : NamedAs .pid .pid
  | bootId : NamedAs .bootId .bootId
  | mountId : NamedAs .mountId .mountId
  | parentMountId : NamedAs .parentMountId .mountId
  | peerGroup : NamedAs .peerGroup .peerGroup
  | device : NamedAs .device .device
  | inode : NamedAs .inode .inode
  | ephemeralPort : NamedAs .ephemeralPort .ephemeralPort
  | resolvedAddress : NamedAs .resolvedAddress .resolvedAddress

instance : Nonempty (Value F) := ⟨.null⟩

theorem namedAs_iff {kind shared : RuleKind} :
    NamedAs kind shared ↔ numbering kind = .across shared := by
  constructor
  · intro hnamed
    cases hnamed <;> rfl
  · intro hacross
    cases kind <;> simp only [numbering, Numbering.across.injEq, reduceCtorEq] at hacross <;>
      subst hacross <;> constructor

theorem numbering_eq_within {kind : RuleKind} :
    numbering kind = .within ↔ kind = .memoryCounter ∨ kind = .loadCounter := by
  cases kind <;> simp [numbering]

/-- Among values of one sort, which comes before is told by the ranks. -/
theorem before_iff {values : List (Value F)} (hsort : OneSort values) {first second : Value F}
    (hfirst : first ∈ values) (hsecond : second ∈ values) :
    Before first second ↔ rankOf first < rankOf second := by
  have hwhole : ∀ {value other : Value F} {number number' : Int}, whole value = some number →
      whole other = some number' → (rankOf value < rankOf other ↔ number < number') := by
    intro value other number number' hvalue hother
    simp only [rankOf, hvalue, hother]
    exact Sum.Lex.inl_lt_inl_iff
  have hnegative : ∀ value : Int64, value < 0 → value.toInt < 0 := fun value hvalue => by
    rwa [Int64.lt_iff_toInt_lt, Int64.toInt_zero] at hvalue
  have hfloat := hsort.2 first hfirst second hsecond
  have hnumber := hsort.1 first hfirst
  have hnumber' := hsort.1 second hsecond
  cases first with
  | number first =>
      cases second with
      | number second =>
          cases first with
          | posInt first =>
              cases second with
              | posInt second =>
                  rw [hwhole (whole_posInt first) (whole_posInt second), Int.ofNat_lt,
                    ← UInt64.lt_iff_toNat_lt]
                  exact ⟨fun hbefore => by cases hbefore; assumption, .unsigned⟩
              | negInt second negative =>
                  rw [hwhole (whole_posInt first) (whole_negInt second negative)]
                  refine iff_of_false (fun hbefore => by cases hbefore) ?_
                  have hbelow := hnegative second negative
                  omega
              | float second => cases hfloat
          | negInt first negative =>
              cases second with
              | posInt second =>
                  rw [hwhole (whole_negInt first negative) (whole_posInt second)]
                  refine iff_of_true .belowZero ?_
                  have hbelow := hnegative first negative
                  omega
              | negInt second negative' =>
                  rw [hwhole (whole_negInt first negative) (whole_negInt second negative'),
                    ← Int64.lt_iff_toInt_lt]
                  exact ⟨fun hbefore => by cases hbefore; assumption, .signed⟩
              | float second => cases hfloat
          | float first =>
              cases second with
              | float second =>
                  rw [rankOf, rankOf, whole_float, whole_float]
                  refine Iff.trans ?_ Sum.Lex.inr_lt_inr_iff.symm
                  exact ⟨fun hbefore => by cases hbefore; assumption, .float⟩
              | _ => cases hfloat
      | _ => cases hnumber'
  | _ => cases hnumber

theorem counters_alike_iff {kind : RuleKind} {first second : Value F}
    (hshape : SameShape first second) :
    (∀ pair ∈ pairsOf first second, placeholder kind (addUnseen [] first.values) pair.1 =
      placeholder kind (addUnseen [] second.values) pair.2) ↔
      Relabels fun a b => (a, b) ∈ pairsOf first second := by
  rw [relabels_iff_oneToOne, ← numbered_alike_iff, hshape.map_fst, hshape.map_snd]
  simp only [placeholder_eq_iff]

theorem times_alike_iff {kind : RuleKind} {first second : Value F}
    (hshape : SameShape first second) (hfirst : OneSort first.values)
    (hsecond : OneSort second.values) :
    (∀ pair ∈ pairsOf first second,
      placeholder kind ((addUnseen [] first.values).mergeSort fun left right =>
        (earlier left right).isLE) pair.1 =
      placeholder kind ((addUnseen [] second.values).mergeSort fun left right =>
        (earlier left right).isLE) pair.2) ↔
      InOrder fun a b => (a, b) ∈ pairsOf first second := by
  have hleft : ∀ a b, (a, b) ∈ pairsOf first second → a ∈ first.values := fun a b hab =>
    hshape.map_fst ▸ List.mem_map_of_mem hab
  have hright : ∀ a b, (a, b) ∈ pairsOf first second → b ∈ second.values := fun a b hab =>
    hshape.map_snd ▸ List.mem_map_of_mem hab
  have hle : ∀ a ∈ (pairsOf first second).map Prod.fst, ∀ b ∈ (pairsOf first second).map Prod.fst,
      (earlier a b).isLE = decide (rankOf a ≤ rankOf b) := by
    rw [hshape.map_fst]
    exact fun a ha b hb => earlier_isLE hfirst ha hb
  have hle' : ∀ a ∈ (pairsOf first second).map Prod.snd, ∀ b ∈ (pairsOf first second).map Prod.snd,
      (earlier a b).isLE = decide (rankOf a ≤ rankOf b) := by
    rw [hshape.map_snd]
    exact fun a ha b hb => earlier_isLE hsecond ha hb
  have hinj : ∀ a ∈ (pairsOf first second).map Prod.fst,
      ∀ b ∈ (pairsOf first second).map Prod.fst, rankOf a = rankOf b → a = b := by
    rw [hshape.map_fst]
    exact fun a ha b hb => rankOf_inj hfirst ha hb
  have hinj' : ∀ a ∈ (pairsOf first second).map Prod.snd,
      ∀ b ∈ (pairsOf first second).map Prod.snd, rankOf a = rankOf b → a = b := by
    rw [hshape.map_snd]
    exact fun a ha b hb => rankOf_inj hsecond ha hb
  have halike := ranked_alike_iff (pairsOf first second) hle hle' hinj hinj'
  rw [hshape.map_fst, hshape.map_snd] at halike
  simp only [placeholder_eq_iff]
  rw [halike]
  constructor
  · intro hkeeps
    refine ⟨relabels_iff_oneToOne.mpr (hkeeps.oneToOne ?_ ?_), fun a b a' b' hab hab' => ?_⟩
    · exact fun a b a' b' hab hab' => rankOf_inj hfirst (hleft a b hab) (hleft a' b' hab')
    · exact fun a b a' b' hab hab' => rankOf_inj hsecond (hright a b hab) (hright a' b' hab')
    · rw [before_iff hfirst (hleft a b hab) (hleft a' b' hab'),
        before_iff hsecond (hright a b hab) (hright a' b' hab')]
      exact hkeeps a b a' b' hab hab'
  · rintro ⟨-, horder⟩ a b a' b' hab hab'
    rw [← before_iff hfirst (hleft a b hab) (hleft a' b' hab'),
      ← before_iff hsecond (hright a b hab) (hright a' b' hab')]
    exact horder a b a' b' hab hab'

/-! ## Observations normalized alike -/

/-- The observations agree outside the rules, and one relabelling of the values of each kind, of
each counter field and of each time field takes the one to the other; durations may be anything. -/
structure Alike (rules : List Rule) (first second : FieldMap F) : Prop where
  names : ∀ field, field ∈ first ↔ field ∈ second
  unruled : ∀ field ∉ rules.map Rule.field, first[field]? = second[field]?
  shapes : ∀ rule ∈ rules, ∀ value other, first[rule.field]? = some value →
    second[rule.field]? = some other → SameShape value other
  named : ∀ kind, Relabels fun a b => ∃ rule ∈ rules, NamedAs rule.kind kind ∧
    (a, b) ∈ fieldPairs first second rule.field
  counters : ∀ rule ∈ rules, rule.kind = .memoryCounter ∨ rule.kind = .loadCounter →
    Relabels fun a b => (a, b) ∈ fieldPairs first second rule.field
  times : ∀ rule ∈ rules, rule.kind = .systemTime →
    InOrder fun a b => (a, b) ∈ fieldPairs first second rule.field

/-- The order of the rules does not matter. -/
theorem Alike.congr {rules others : List Rule} {first second : FieldMap F}
    (hmem : ∀ rule, rule ∈ others ↔ rule ∈ rules) (halike : Alike rules first second) :
    Alike others first second where
  names := halike.names
  unruled field hfield := by
    refine halike.unruled field fun hruled => hfield ?_
    obtain ⟨rule, hrule, rfl⟩ := List.mem_map.mp hruled
    exact List.mem_map_of_mem ((hmem rule).mpr hrule)
  shapes rule hrule := halike.shapes rule ((hmem rule).mp hrule)
  named kind := by
    have hpairs := halike.named kind
    simp only [← hmem] at hpairs
    exact hpairs
  counters rule hrule := halike.counters rule ((hmem rule).mp hrule)
  times rule hrule := halike.times rule ((hmem rule).mp hrule)

/-- The pairs of values numbered with a kind. -/
def kindPairs (kind : RuleKind) (rules : List Rule) (first second : FieldMap F) :
    List (Value F × Value F) :=
  rules.flatMap fun rule =>
    if numbering rule.kind = .across kind then fieldPairs first second rule.field else []

omit [Floats F] in
theorem mem_kindPairs {kind : RuleKind} {rules : List Rule} {first second : FieldMap F}
    {a b : Value F} : (a, b) ∈ kindPairs kind rules first second ↔
      ∃ rule ∈ rules, numbering rule.kind = .across kind ∧
        (a, b) ∈ fieldPairs first second rule.field := by
  unfold kindPairs
  rw [List.mem_flatMap]
  refine exists_congr fun rule => and_congr_right fun _ => ?_
  split
  next hkind => rw [and_iff_right hkind]
  next hkind =>
    rw [iff_false_intro List.not_mem_nil, false_iff]
    exact fun hmem => hkind hmem.1

omit [Floats F] in
theorem fieldPairs_some {first second : FieldMap F} {field : String} {value other : Value F}
    (hvalue : first[field]? = some value) (hother : second[field]? = some other) :
    fieldPairs first second field = pairsOf value other := by
  rw [fieldPairs, hvalue, hother]

omit [Floats F] in
theorem fieldPairs_none {first second : FieldMap F} {field : String}
    (hnone : first[field]? = none) : fieldPairs first second field = [] := by
  rw [fieldPairs, hnone]

/-- What normalization makes of the fields, from what it saw of each kind. -/
structure Normalized (rules : List Rule) (fields : FieldMap F) (across : RuleKind → List (Value F))
    (out : FieldMap F) : Prop where
  across_eq : ∀ kind, across kind = addUnseen [] (kindValues kind rules fields)
  kept : ∀ field ∉ rules.map Rule.field, out[field]? = fields[field]?
  ruled : ∀ rule ∈ rules, out[rule.field]? = fields[rule.field]?.map fun value =>
    value.mapValues (label rule.kind (rule.seen across value))
  fits : ∀ rule ∈ rules, ∀ value, fields[rule.field]? = some value → rule.fits value = true

omit [Floats F] in
theorem rulesOf_nodup {manifest : Manifest F} (hvalid : manifest.validate = .ok ())
    (probe : String) : ((manifest.rulesOf probe).map Rule.field).Nodup := by
  have hperm : ((manifest.rulesOf probe).map Rule.field).Perm
      ((manifest.rules.filter fun rule => rule.probe = probe).map Rule.field) :=
    (sortByKey_perm _).map _
  refine hperm.nodup_iff.mpr (List.Nodup.map_on ?_ ?_)
  · intro first hfirst second hsecond hfield
    rw [List.mem_filter, decide_eq_true_iff] at hfirst hsecond
    refine List.inj_on_of_nodup_map (Manifest.validate_rules hvalid).1 hfirst.1 hsecond.1 ?_
    rw [hfirst.2, hsecond.2, hfield]
  · exact (List.Nodup.of_map _ (Manifest.validate_rules hvalid).1).filter _

theorem normalize_ok {manifest : Manifest F} (hvalid : manifest.validate = .ok ()) {lane : Lane}
    {observation : Observation F} {out : FieldMap F}
    (hout : normalize manifest lane observation = .ok out) :
    ∃ across, Normalized (manifest.rulesOf observation.probe) observation.fields across out := by
  unfold normalize at hout
  cases hrun : (manifest.rulesOf observation.probe).foldlM (normalizeRule lane)
      ⟨observation.fields, fun _ => []⟩ with
  | error refusal =>
      rw [hrun] at hout
      cases hout
  | ok after =>
      rw [hrun] at hout
      cases hout
      obtain ⟨hacross, hkept, hruled⟩ := run_ok (rulesOf_nodup hvalid observation.probe) hrun
      exact ⟨after.across, hacross, hkept, fun rule hrule => (hruled rule hrule).1,
        fun rule hrule => (hruled rule hrule).2⟩

section Pairs

variable {rules : List Rule} {first second : FieldMap F}
  (hnames : ∀ field, field ∈ first ↔ field ∈ second)
  (hshapes : ∀ rule ∈ rules, ∀ value other, first[rule.field]? = some value →
    second[rule.field]? = some other → SameShape value other)

include hnames hshapes

omit [Floats F] in
theorem fieldPairs_sides {rule : Rule} (hrule : rule ∈ rules) :
    (fieldPairs first second rule.field).map Prod.fst =
        (first[rule.field]?.map Value.values).getD [] ∧
      (fieldPairs first second rule.field).map Prod.snd =
        (second[rule.field]?.map Value.values).getD [] := by
  have hsome := hnames rule.field
  rw [ExtTreeMap.mem_iff_isSome_getElem?, ExtTreeMap.mem_iff_isSome_getElem?] at hsome
  cases hvalue : first[rule.field]? with
  | none =>
      cases hother : second[rule.field]? with
      | none =>
          rw [fieldPairs_none hvalue]
          exact ⟨rfl, rfl⟩
      | some other => simp [hvalue, hother] at hsome
  | some value =>
      cases hother : second[rule.field]? with
      | none => simp [hvalue, hother] at hsome
      | some other =>
          rw [fieldPairs_some hvalue hother]
          have hshape := hshapes rule hrule value other hvalue hother
          exact ⟨hshape.map_fst, hshape.map_snd⟩

omit [Floats F] in
theorem kindPairs_sides (kind : RuleKind) :
    (kindPairs kind rules first second).map Prod.fst = kindValues kind rules first ∧
      (kindPairs kind rules first second).map Prod.snd = kindValues kind rules second := by
  unfold kindPairs kindValues
  rw [List.map_flatMap, List.map_flatMap]
  constructor
  · apply List.flatMap_congr
    intro rule hrule
    split
    · exact (fieldPairs_sides hnames hshapes hrule).1
    · rfl
  · apply List.flatMap_congr
    intro rule hrule
    split
    · exact (fieldPairs_sides hnames hshapes hrule).2
    · rfl

end Pairs

/-- A ruled field is labelled alike when its values correspond, given the values seen of its
kind. -/
theorem field_alike_iff {rule : Rule} {across across' : RuleKind → List (Value F)}
    {value other : Value F} (hfits : rule.fits value = true) (hfits' : rule.fits other = true)
    (hshape : SameShape value other) :
    (∀ pair ∈ pairsOf value other, label rule.kind (rule.seen across value) pair.1 =
      label rule.kind (rule.seen across' other) pair.2) ↔
    (∀ kind, numbering rule.kind = .across kind → ∀ pair ∈ pairsOf value other,
      countBefore (across kind) pair.1 = countBefore (across' kind) pair.2) ∧
    (rule.kind = .memoryCounter ∨ rule.kind = .loadCounter →
      Relabels fun a b => (a, b) ∈ pairsOf value other) ∧
    (rule.kind = .systemTime → InOrder fun a b => (a, b) ∈ pairsOf value other) := by
  rw [← numbering_eq_within, ← numbering_eq_rank]
  cases hnumbering : numbering rule.kind with
  | across kind =>
      simp only [label, Rule.seen, hnumbering, placeholder_eq_iff]
      refine ⟨fun halike => ⟨?_, by simp, by simp⟩, fun halike => halike.1 kind rfl⟩
      rintro kind ⟨⟩
      exact halike
  | within =>
      simp only [label, Rule.seen, hnumbering]
      rw [counters_alike_iff hshape]
      exact ⟨fun halike => ⟨by simp, fun _ => halike, by simp⟩, fun halike => halike.2.1 trivial⟩
  | rank =>
      simp only [label, Rule.seen, hnumbering]
      rw [times_alike_iff hshape (oneSort_of_fits hnumbering hfits)
        (oneSort_of_fits hnumbering hfits')]
      exact ⟨fun halike => ⟨by simp, by simp, fun _ => halike⟩, fun halike => halike.2.2 trivial⟩
  | none =>
      simp only [label, hnumbering]
      exact ⟨fun _ => ⟨by simp, by simp, by simp⟩, fun _ _ _ => trivial⟩

section Equal

variable {rules : List Rule} {first second : FieldMap F}
  {across across' : RuleKind → List (Value F)}
  {out out' : FieldMap F} (hfirst : Normalized rules first across out)
  (hsecond : Normalized rules second across' out')

include hfirst hsecond

/-- The labels of a kind are the same when one relabelling takes all its values across. -/
theorem Normalized.named_iff (hnames : ∀ field, field ∈ first ↔ field ∈ second)
    (hshapes : ∀ rule ∈ rules, ∀ value other, first[rule.field]? = some value →
      second[rule.field]? = some other → SameShape value other) (kind : RuleKind) :
    (∀ rule ∈ rules, numbering rule.kind = .across kind →
      ∀ pair ∈ fieldPairs first second rule.field,
        countBefore (across kind) pair.1 = countBefore (across' kind) pair.2) ↔
    Relabels fun a b => ∃ rule ∈ rules, NamedAs rule.kind kind ∧
      (a, b) ∈ fieldPairs first second rule.field := by
  simp only [namedAs_iff]
  obtain ⟨hfst, hsnd⟩ := kindPairs_sides hnames hshapes kind
  have halike := numbered_alike_iff (kindPairs kind rules first second)
  rw [hfst, hsnd, ← hfirst.across_eq, ← hsecond.across_eq] at halike
  rw [relabels_iff_oneToOne]
  simp only [mem_kindPairs] at halike
  rw [← halike]
  constructor
  · rintro hcount ⟨a, b⟩ hpair
    obtain ⟨rule, hrule, hkind, hmem⟩ := mem_kindPairs.mp hpair
    exact hcount rule hrule hkind _ hmem
  · rintro hcount rule hrule hkind ⟨a, b⟩ hpair
    exact hcount _ (mem_kindPairs.mpr ⟨rule, hrule, hkind, hpair⟩)

theorem Normalized.names (heq : out = out') (field : String) : field ∈ first ↔ field ∈ second := by
  have hat := congrArg (fun map : FieldMap F => map[field]?.isSome) heq
  rw [ExtTreeMap.mem_iff_isSome_getElem?, ExtTreeMap.mem_iff_isSome_getElem?]
  by_cases hfield : field ∈ rules.map Rule.field
  · obtain ⟨rule, hrule, rfl⟩ := List.mem_map.mp hfield
    simp only [hfirst.ruled rule hrule, hsecond.ruled rule hrule, Option.isSome_map] at hat
    rw [hat]
  · simp only [hfirst.kept field hfield, hsecond.kept field hfield] at hat
    rw [hat]

/-- A ruled field is normalized alike when it has the same shape and its labels agree. -/
theorem Normalized.field_eq_iff {rule : Rule} (hrule : rule ∈ rules) {value other : Value F}
    (hvalue : first[rule.field]? = some value) (hother : second[rule.field]? = some other) :
    out[rule.field]? = out'[rule.field]? ↔ SameShape value other ∧
      ∀ pair ∈ pairsOf value other, label rule.kind (rule.seen across value) pair.1 =
        label rule.kind (rule.seen across' other) pair.2 := by
  rw [hfirst.ruled rule hrule, hsecond.ruled rule hrule, hvalue, hother, Option.map_some,
    Option.map_some, Option.some.injEq]
  exact mapValues_label_eq_iff

theorem Normalized.alike_of_eq (heq : out = out') : Alike rules first second := by
  have hnames := hfirst.names hsecond heq
  have hfields : ∀ rule ∈ rules, ∀ value other, first[rule.field]? = some value →
      second[rule.field]? = some other → SameShape value other ∧
        ∀ pair ∈ pairsOf value other, label rule.kind (rule.seen across value) pair.1 =
          label rule.kind (rule.seen across' other) pair.2 := by
    intro rule hrule value other hvalue hother
    rw [← hfirst.field_eq_iff hsecond hrule hvalue hother, heq]
  have hshapes : ∀ rule ∈ rules, ∀ value other, first[rule.field]? = some value →
      second[rule.field]? = some other → SameShape value other :=
    fun rule hrule value other hvalue hother => (hfields rule hrule value other hvalue hother).1
  -- Each rule's field is absent from both, or labelled alike.
  have hruled : ∀ rule ∈ rules, fieldPairs first second rule.field = [] ∨
      ∃ value other, fieldPairs first second rule.field = pairsOf value other ∧
        (∀ kind, numbering rule.kind = .across kind → ∀ pair ∈ pairsOf value other,
          countBefore (across kind) pair.1 = countBefore (across' kind) pair.2) ∧
        (rule.kind = .memoryCounter ∨ rule.kind = .loadCounter →
          Relabels fun a b => (a, b) ∈ pairsOf value other) ∧
        (rule.kind = .systemTime → InOrder fun a b => (a, b) ∈ pairsOf value other) := by
    intro rule hrule
    cases hvalue : first[rule.field]? with
    | none => exact .inl (fieldPairs_none hvalue)
    | some value =>
        cases hother : second[rule.field]? with
        | none =>
            left
            rw [fieldPairs, hvalue, hother]
        | some other =>
            obtain ⟨hshape, hlabels⟩ := hfields rule hrule value other hvalue hother
            exact .inr ⟨value, other, fieldPairs_some hvalue hother,
              (field_alike_iff (hfirst.fits rule hrule value hvalue)
                (hsecond.fits rule hrule other hother) hshape).mp hlabels⟩
  have hempty : Relabels fun a b : Value F => (a, b) ∈ ([] : List (Value F × Value F)) := by
    rw [relabels_iff_oneToOne]
    exact fun a b a' b' hab => absurd hab List.not_mem_nil
  refine ⟨hnames, ?_, hshapes, fun kind => ?_, ?_, ?_⟩
  · intro field hfield
    rw [← hfirst.kept field hfield, ← hsecond.kept field hfield, heq]
  · rw [← hfirst.named_iff hsecond hnames hshapes kind]
    intro rule hrule hkind pair hpair
    rcases hruled rule hrule with hnone | ⟨value, other, hpairs, hcounts, -, -⟩
    · rw [hnone] at hpair
      cases hpair
    · exact hcounts kind hkind pair (hpairs ▸ hpair)
  · intro rule hrule hkind
    rcases hruled rule hrule with hnone | ⟨value, other, hpairs, -, hcounter, -⟩
    · rw [hnone]
      exact hempty
    · rw [hpairs]
      exact hcounter hkind
  · intro rule hrule hkind
    rcases hruled rule hrule with hnone | ⟨value, other, hpairs, -, -, htime⟩
    · rw [hnone]
      exact ⟨hempty, fun a b a' b' hab => absurd hab List.not_mem_nil⟩
    · rw [hpairs]
      exact htime hkind

theorem Normalized.eq_of_alike (halike : Alike rules first second) : out = out' := by
  apply ExtTreeMap.ext_getElem?
  intro field
  by_cases hfield : field ∈ rules.map Rule.field
  · obtain ⟨rule, hrule, rfl⟩ := List.mem_map.mp hfield
    have hsome := halike.names rule.field
    rw [ExtTreeMap.mem_iff_isSome_getElem?, ExtTreeMap.mem_iff_isSome_getElem?] at hsome
    cases hvalue : first[rule.field]? with
    | none =>
        rw [hvalue] at hsome
        have hother : second[rule.field]? = none := by
          rw [← Option.not_isSome_iff_eq_none]
          exact fun hmem => absurd (hsome.mpr hmem) nofun
        rw [hfirst.ruled rule hrule, hsecond.ruled rule hrule, hvalue, hother]
        rfl
    | some value =>
        rw [hvalue] at hsome
        obtain ⟨other, hother⟩ := Option.isSome_iff_exists.mp (hsome.mp rfl)
        have hshape := halike.shapes rule hrule value other hvalue hother
        have hpairs := fieldPairs_some hvalue hother
        rw [hfirst.field_eq_iff hsecond hrule hvalue hother]
        refine ⟨hshape, (field_alike_iff (hfirst.fits rule hrule value hvalue)
          (hsecond.fits rule hrule other hother) hshape).mpr ⟨fun kind hkind => ?_, ?_, ?_⟩⟩
        · rw [← hpairs]
          exact (hfirst.named_iff hsecond halike.names halike.shapes kind).mpr (halike.named kind)
            rule hrule hkind
        · rw [← hpairs]
          exact halike.counters rule hrule
        · rw [← hpairs]
          exact halike.times rule hrule
  · rw [hfirst.kept field hfield, hsecond.kept field hfield, halike.unruled field hfield]

end Equal

/-! ## The rules hide nothing else -/

omit [Floats F] in
theorem workloadSet_not_ruled {manifest : Manifest F} (hvalid : manifest.validate = .ok ())
    {spec : ProbeSpec} (hspec : spec ∈ manifest.probes) {field : String}
    (hfield : field ∈ spec.workloadSet) :
    field ∉ (manifest.rulesOf spec.id).map Rule.field := by
  rw [List.mem_map]
  rintro ⟨rule, hrule, rfl⟩
  have hmem := (sortByKey_perm _).mem_iff.mp hrule
  rw [List.mem_filter, decide_eq_true_iff] at hmem
  have hunset := (Manifest.validate_rules hvalid).2 rule hmem.1
  rw [Manifest.setByWorkload, List.any_eq_false] at hunset
  refine hunset spec hspec ?_
  rw [Bool.and_eq_true, decide_eq_true_iff, decide_eq_true_iff]
  exact ⟨hmem.2.symm, hfield⟩

omit [Floats F] in
theorem Manifest.mem_rulesOf (manifest : Manifest F) (probe : String) (rule : Rule) :
    rule ∈ manifest.rulesOf probe ↔
      rule ∈ manifest.rules.filter fun rule => rule.probe = probe :=
  (sortByKey_perm _).mem_iff

/-- Two observations of a probe normalize alike exactly when they agree outside the rules of the
probe and their ruled values correspond; what no rule covers is returned unchanged. -/
theorem normalization_hides_what_rules_allow (manifest : Manifest F) (lane lane' : Lane)
    (first second : Observation F) (out out' : FieldMap F)
    (hvalid : manifest.validate = .ok ()) (hprobe : second.probe = first.probe)
    (hfirst : normalize manifest lane first = .ok out)
    (hsecond : normalize manifest lane' second = .ok out') :
    (out = out' ↔ Alike (manifest.rules.filter fun rule => rule.probe = first.probe)
        first.fields second.fields) ∧
      (∀ field, (∀ rule ∈ manifest.rules, rule.probe = first.probe → rule.field ≠ field) →
        out[field]? = first.fields[field]?) ∧
      ∀ spec ∈ manifest.probes, spec.id = first.probe → ∀ field ∈ spec.workloadSet,
        out[field]? = first.fields[field]? := by
  obtain ⟨across, hnormal⟩ := normalize_ok hvalid hfirst
  obtain ⟨across', hnormal'⟩ := normalize_ok hvalid hsecond
  rw [hprobe] at hnormal'
  have hmem := manifest.mem_rulesOf first.probe
  refine ⟨⟨fun heq => ?_, fun halike => ?_⟩, fun field hfield => ?_,
    fun spec hspec hid field hfield => ?_⟩
  · exact (hnormal.alike_of_eq hnormal' heq).congr fun rule => (hmem rule).symm
  · exact hnormal.eq_of_alike hnormal' (halike.congr hmem)
  · refine hnormal.kept field fun hruled => ?_
    obtain ⟨rule, hrule, rfl⟩ := List.mem_map.mp hruled
    obtain ⟨hdeclared, hof⟩ := List.mem_filter.mp ((hmem rule).mp hrule)
    exact hfield rule hdeclared (of_decide_eq_true hof) rfl
  · exact hnormal.kept field (hid ▸ workloadSet_not_ruled hvalid hspec hfield)

/-! ## A manifest -/

section Sample

instance : Floats Int := ⟨id⟩

def sampleProbes : List ProbeSpec :=
  [⟨"host.a", .refusal, "step", some .host, ["seed"]⟩, ⟨"host.b", .refusal, "step", some .host, []⟩,
    ⟨"host.c", .refusal, "step", some .host, []⟩, ⟨"path.a", .hint, "step", some .path, []⟩,
    ⟨"path.b", .hint, "step", some .path, []⟩, ⟨"path.c", .hint, "step", some .path, []⟩,
    ⟨"use.a", .operation, "step", some .facility, []⟩,
    ⟨"use.b", .operation, "step", some .facility, []⟩,
    ⟨"use.c", .operation, "step", some .facility, []⟩, ⟨"see.a", .facility, "step", none, []⟩,
    ⟨"see.b", .facility, "step", none, []⟩, ⟨"see.c", .facility, "step", none, []⟩,
    ⟨"mounts", .disturbance, "step", none, []⟩, ⟨"cgroup", .disturbance, "step", none, []⟩,
    ⟨"stir", .disturbance, "step", none, []⟩]

def sampleRules : List Rule :=
  [⟨"host.a", "parents", .parentMountId⟩, ⟨"host.a", "roots", .mountId⟩,
    ⟨"host.a", "taken", .duration⟩, ⟨"host.a", "times", .systemTime⟩]

def sampleManifest : Manifest Int where
  probes := sampleProbes
  rules := sampleRules
  allowances := [⟨"see.a", "shown", .bool true⟩]
  neutral := ⟨"mounts", "cgroup", [⟨"/opt", "a", "ext4", "ro"⟩,
    ⟨"/usr/local/bin", "b", "ext4", "ro"⟩, ⟨"/work", "c", "fuse", "rw"⟩], "disk", "/"⟩

theorem sampleManifest_validate : sampleManifest.validate = .ok () := by decide

theorem sampleManifest_rulesOf : sampleManifest.rulesOf "host.a" = sampleRules :=
  sortByKey_of_pairwise (by decide)

def sampleFields (parents roots taken times : Value Int) : FieldMap Int :=
  ((((∅ : FieldMap Int).insert "parents" parents).insert "roots" roots).insert "taken" taken).insert
    "times" times

def unsigned (number : UInt64) : Value Int := .number (.posInt number)

/-- Two mounts under two parents, one a mount itself, and two times. -/
def sampleObservation (first second third taken left right : UInt64) : Observation Int :=
  ⟨"host.a", true, false, sampleFields (.array [unsigned first, unsigned second])
    (.array [unsigned second, unsigned third]) (unsigned taken)
    (.array [unsigned left, unsigned right])⟩

theorem sampleFields_insert (parents roots taken times parents' roots' taken' times' : Value Int) :
    ((((sampleFields parents roots taken times).insert "parents" parents').insert "roots"
      roots').insert "taken" taken').insert "times" times' =
        sampleFields parents' roots' taken' times' := by
  apply ExtTreeMap.ext_getElem?
  intro field
  simp only [sampleFields, OrderedMap.getElem?_insert']
  split_ifs <;> rfl

/-- The names of the two parents and of the two roots, one of them shared. -/
def sampleNames (times : List String) : FieldMap Int :=
  sampleFields (.array [.string "<mount_id:1>", .string "<mount_id:2>"])
    (.array [.string "<mount_id:2>", .string "<mount_id:3>"]) (.string "<duration>")
    (.array (times.map .string))

/-- What two times become. -/
theorem sampleTimes_rank {left right : UInt64} (hne : left ≠ right) :
    [unsigned left, unsigned right].map (placeholder .systemTime
      ((addUnseen [] [unsigned left, unsigned right]).mergeSort fun left right =>
        (earlier left right).isLE)) =
      (if left < right then ["<system_time:1>", "<system_time:2>"]
        else ["<system_time:2>", "<system_time:1>"]).map .string := by
  have hseen : addUnseen [] [unsigned left, unsigned right] = [unsigned left, unsigned right] := by
    simp [unsigned, Ne.symm hne]
  have hsort : OneSort [unsigned left, unsigned right] := by
    simp [OneSort, unsigned, Value.isNumber, Value.isF64]
  have hle : (earlier (unsigned left) (unsigned right)).isLE = decide (left ≤ right) := by
    rw [earlier_isLE hsort (by simp) (by simp), decide_eq_decide, rankOf, rankOf, unsigned,
      unsigned, whole_posInt, whole_posInt, UInt64.le_iff_toNat_le]
    exact Sum.Lex.inl_le_inl_iff.trans Int.ofNat_le
  have hsorted : [unsigned left, unsigned right].mergeSort
      (fun left right => (earlier left right).isLE) =
        if left ≤ right then [unsigned left, unsigned right]
        else [unsigned right, unsigned left] := by
    simp [List.mergeSort, List.MergeSort.Internal.splitInTwo, List.cons_merge_cons, hle]
  rw [hseen, hsorted]
  split
  next hle =>
    rw [if_pos (UInt64.lt_of_le_of_ne hle hne)]
    simp [placeholder, countBefore_cons, unsigned, hne]
    decide
  next hnot =>
    rw [if_neg fun hless => hnot (UInt64.le_of_lt hless)]
    simp [placeholder, countBefore_cons, unsigned, Ne.symm hne]
    decide

theorem sampleObservation_normalize (lane : Lane) {first second third taken left right : UInt64}
    (hsecond : first ≠ second) (hthird : first ≠ third) (hlast : second ≠ third)
    (htimes : left ≠ right) :
    normalize sampleManifest lane (sampleObservation first second third taken left right) =
      .ok (sampleNames (if left < right then ["<system_time:1>", "<system_time:2>"]
        else ["<system_time:2>", "<system_time:1>"])) := by
  have hparents : addUnseen [] [unsigned first, unsigned second] =
      [unsigned first, unsigned second] := by
    simp [unsigned, Ne.symm hsecond]
  have hroots : addUnseen [unsigned first, unsigned second] [unsigned second, unsigned third] =
      [unsigned first, unsigned second, unsigned third] := by
    simp [unsigned, Ne.symm hthird, Ne.symm hlast]
  have hnames : [unsigned first, unsigned second].map (placeholder .mountId
      [unsigned first, unsigned second]) = [.string "<mount_id:1>", .string "<mount_id:2>"] := by
    simp [placeholder, countBefore_cons, unsigned, hsecond]
    decide
  have hnames' : [unsigned second, unsigned third].map (placeholder .mountId
      [unsigned first, unsigned second, unsigned third]) =
        [.string "<mount_id:2>", .string "<mount_id:3>"] := by
    simp [placeholder, countBefore_cons, unsigned, hsecond, hthird, hlast]
    decide
  let fields := (sampleObservation first second third taken left right).fields
  let named := fields.insert "parents" (.array [.string "<mount_id:1>", .string "<mount_id:2>"])
  let rooted := named.insert "roots" (.array [.string "<mount_id:2>", .string "<mount_id:3>"])
  let timed := rooted.insert "taken" (.string "<duration>")
  have hfirst : normalizeRule lane ⟨fields, fun _ => []⟩ ⟨"host.a", "parents", .parentMountId⟩ =
      .ok ⟨named, Function.update (fun _ => []) .mountId [unsigned first, unsigned second]⟩ := by
    have hvalue : fields["parents"]? = some (.array [unsigned first, unsigned second]) := by
      simp only [fields, sampleObservation, sampleFields, OrderedMap.getElem?_insert']
      rfl
    have hfits : Rule.fits ⟨"host.a", "parents", .parentMountId⟩
        (Value.array [unsigned first, unsigned second]) = true := rfl
    simp only [normalizeRule, hvalue, hfits, if_true, numbering, Value.values, Value.mapValues,
      hparents, hnames, named]
  have hafter : normalizeRule lane
      ⟨named, Function.update (fun _ => []) .mountId [unsigned first, unsigned second]⟩
      ⟨"host.a", "roots", .mountId⟩ = .ok ⟨rooted, Function.update (fun _ => []) .mountId
        [unsigned first, unsigned second, unsigned third]⟩ := by
    have hvalue : named["roots"]? = some (.array [unsigned second, unsigned third]) := by
      simp only [named, fields, sampleObservation, sampleFields, OrderedMap.getElem?_insert']
      rfl
    have hfits : Rule.fits ⟨"host.a", "roots", .mountId⟩
        (Value.array [unsigned second, unsigned third]) = true := rfl
    simp only [normalizeRule, hvalue, hfits, if_true, numbering, Value.values, Value.mapValues,
      Function.update_self, Function.update_idem, hroots, hnames', rooted]
  have htaken : ∀ across : RuleKind → List (Value Int), normalizeRule lane ⟨rooted, across⟩
      ⟨"host.a", "taken", .duration⟩ = .ok ⟨timed, across⟩ := by
    intro across
    have hvalue : rooted["taken"]? = some (unsigned taken) := by
      simp only [rooted, named, fields, sampleObservation, sampleFields,
        OrderedMap.getElem?_insert']
      rfl
    have hfits : Rule.fits ⟨"host.a", "taken", .duration⟩ (unsigned taken) = true := rfl
    simp only [normalizeRule, hvalue, hfits, if_true, numbering, timed]
    rfl
  have hlater : ∀ across : RuleKind → List (Value Int), normalizeRule lane ⟨timed, across⟩
      ⟨"host.a", "times", .systemTime⟩ = .ok ⟨timed.insert "times" (.array
        ((if left < right then ["<system_time:1>", "<system_time:2>"]
          else ["<system_time:2>", "<system_time:1>"]).map .string)), across⟩ := by
    intro across
    have hvalue : timed["times"]? = some (.array [unsigned left, unsigned right]) := by
      simp only [timed, rooted, named, fields, sampleObservation, sampleFields,
        OrderedMap.getElem?_insert']
      rfl
    have hfits : Rule.fits ⟨"host.a", "times", .systemTime⟩
        (Value.array [unsigned left, unsigned right]) = true := rfl
    simp only [normalizeRule, hvalue, hfits, if_true, numbering, Value.values, Value.mapValues,
      sampleTimes_rank htimes]
  have hrun := List.foldlM_cons.trans (bind_eq_ok.mpr ⟨_, hfirst, List.foldlM_cons.trans
    (bind_eq_ok.mpr ⟨_, hafter, List.foldlM_cons.trans (bind_eq_ok.mpr ⟨_, htaken _,
      List.foldlM_cons.trans (bind_eq_ok.mpr ⟨_, hlater _, List.foldlM_nil⟩)⟩)⟩)⟩)
  unfold normalize
  change Except.map _ (List.foldlM _ _ (sampleManifest.rulesOf "host.a")) = _
  rw [sampleManifest_rulesOf]
  exact (congrArg (Except.map Normalizing.fields) hrun).trans
    (congrArg Except.ok (sampleFields_insert _ _ _ _ _ _ _ _))

/-- Other mounts, another duration and later times are hidden; times the other way round are not. -/
theorem normalization_hides_what_rules_allow_sample :
    Alike (sampleManifest.rules.filter fun rule => rule.probe = "host.a")
        (sampleObservation 7 8 9 1 30 10).fields (sampleObservation 4 2 6 5 13 12).fields ∧
      ¬ Alike (sampleManifest.rules.filter fun rule => rule.probe = "host.a")
        (sampleObservation 7 8 9 1 30 10).fields (sampleObservation 7 8 9 1 10 30).fields := by
  have hfirst := @sampleObservation_normalize .cell 7 8 9 1 30 10
    (by decide) (by decide) (by decide) (by decide)
  have hsecond := @sampleObservation_normalize .absent 4 2 6 5 13 12
    (by decide) (by decide) (by decide) (by decide)
  have hother := @sampleObservation_normalize .absent 7 8 9 1 10 30
    (by decide) (by decide) (by decide) (by decide)
  constructor
  · exact (normalization_hides_what_rules_allow sampleManifest .cell .absent
      (sampleObservation 7 8 9 1 30 10) (sampleObservation 4 2 6 5 13 12) _ _
      sampleManifest_validate rfl hfirst hsecond).1.mp rfl
  · intro halike
    have hsame := (normalization_hides_what_rules_allow sampleManifest .cell .absent
      (sampleObservation 7 8 9 1 30 10) (sampleObservation 7 8 9 1 10 30) _ _
      sampleManifest_validate rfl hfirst hother).1.mpr halike
    have htimes := congrArg (fun fields : FieldMap Int => fields["times"]?) hsame
    simp [sampleNames, sampleFields] at htimes

end Sample

end Plasmosome.Differential
