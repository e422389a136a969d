import Mathlib

/-!
# Numbering by first appearance

Values are numbered in the order they first appear. Two lists get the same numbers
exactly when the pairing of their values is one-to-one, and the same ranks exactly
when it keeps the order: the numbers tell which values are equal, or which come
first, and nothing else.
-/

namespace Foundation

variable {α β : Type*}

/-- Adds the values not seen yet, in the order they appear. -/
def addUnseen [DecidableEq α] (seen values : List α) : List α :=
  values.foldl (fun seen value => if value ∈ seen then seen else seen ++ [value]) seen

/-- How many values stand before this one. -/
def countBefore [DecidableEq α] (seen : List α) (value : α) : Nat :=
  (seen.takeWhile fun other => other ≠ value).length

/-- The pairing takes equal values to equal values, in both directions. -/
def OneToOne (pairs : α → β → Prop) : Prop :=
  ∀ a b a' b', pairs a b → pairs a' b' → (a = a' ↔ b = b')

/-- One bijection takes the first of each pair to the second. -/
def Relabels (pairs : α → β → Prop) : Prop :=
  ∃ relabel : α → β, Set.BijOn relabel {a | ∃ b, pairs a b} {b | ∃ a, pairs a b} ∧
    ∀ a b, pairs a b → relabel a = b

theorem relabels_iff_oneToOne [Nonempty β] {pairs : α → β → Prop} :
    Relabels pairs ↔ OneToOne pairs := by
  classical
  constructor
  · rintro ⟨relabel, hbij, hpairs⟩ a b a' b' hab hab'
    rw [← hpairs a b hab, ← hpairs a' b' hab']
    exact (hbij.injOn.eq_iff ⟨b, hab⟩ ⟨b', hab'⟩).symm
  · intro hone
    let relabel := fun a => if h : ∃ b, pairs a b then h.choose else Classical.arbitrary β
    have hrelabel : ∀ a b, pairs a b → relabel a = b := by
      intro a b hab
      have hsome : ∃ b, pairs a b := ⟨b, hab⟩
      change (if h : ∃ b, pairs a b then h.choose else Classical.arbitrary β) = b
      rw [dif_pos hsome]
      exact (hone a _ a b hsome.choose_spec hab).mp rfl
    refine ⟨relabel, ⟨?_, ?_, ?_⟩, hrelabel⟩
    · rintro a ⟨b, hab⟩
      rw [hrelabel a b hab]
      exact ⟨a, hab⟩
    · rintro a ⟨b, hab⟩ a' ⟨b', hab'⟩ heq
      rw [hrelabel a b hab, hrelabel a' b' hab'] at heq
      exact (hone a b a' b' hab hab').mpr heq
    · rintro b ⟨a, hab⟩
      exact ⟨a, ⟨b, hab⟩, hrelabel a b hab⟩

/-- The pairs of a one-to-one pairing are told apart by either side. -/
theorem OneToOne.sides {pairs : List (α × β)} (hone : OneToOne fun a b => (a, b) ∈ pairs) :
    (∀ value ∈ pairs, ∀ other ∈ pairs, other.1 = value.1 ↔ other = value) ∧
      ∀ value ∈ pairs, ∀ other ∈ pairs, other.2 = value.2 ↔ other = value := by
  constructor
  · intro value hvalue other hother
    refine ⟨fun heq => Prod.ext heq ?_, fun heq => heq ▸ rfl⟩
    exact (hone _ _ _ _ hother hvalue).mp heq
  · intro value hvalue other hother
    refine ⟨fun heq => Prod.ext ?_ heq, fun heq => heq ▸ rfl⟩
    exact (hone _ _ _ _ hother hvalue).mpr heq

section Unseen

variable [DecidableEq α]

@[simp] theorem addUnseen_nil (seen : List α) : addUnseen seen [] = seen := rfl

@[simp] theorem addUnseen_cons (seen : List α) (value : α) (values : List α) :
    addUnseen seen (value :: values) =
      addUnseen (if value ∈ seen then seen else seen ++ [value]) values := rfl

theorem addUnseen_append (seen first second : List α) :
    addUnseen seen (first ++ second) = addUnseen (addUnseen seen first) second :=
  List.foldl_append

/-- Only new values are added, behind what was seen. -/
theorem prefix_addUnseen (seen values : List α) : seen <+: addUnseen seen values := by
  induction values generalizing seen with
  | nil => exact List.prefix_refl _
  | cons value rest ih =>
      rw [addUnseen_cons]
      split
      · exact ih seen
      · exact (List.prefix_append _ _).trans (ih _)

theorem mem_addUnseen {seen values : List α} {value : α} :
    value ∈ addUnseen seen values ↔ value ∈ seen ∨ value ∈ values := by
  induction values generalizing seen with
  | nil => simp
  | cons head rest ih =>
      rw [addUnseen_cons, ih, List.mem_cons]
      split
      next hseen =>
        constructor
        · rintro (hold | hrest)
          · exact .inl hold
          · exact .inr (.inr hrest)
        · rintro (hold | rfl | hrest)
          · exact .inl hold
          · exact .inl hseen
          · exact .inr hrest
      next => rw [List.mem_append, List.mem_singleton, or_assoc]

theorem nodup_addUnseen {seen : List α} (hseen : seen.Nodup) (values : List α) :
    (addUnseen seen values).Nodup := by
  induction values generalizing seen with
  | nil => exact hseen
  | cons value rest ih =>
      rw [addUnseen_cons]
      split
      · exact ih hseen
      next hnew =>
        refine ih (List.nodup_append.mpr ⟨hseen, List.nodup_singleton _, ?_⟩)
        rintro a ha _ hb rfl
        rw [List.mem_singleton] at hb
        exact hnew (hb ▸ ha)

/-! ## Counting -/

theorem countBefore_cons (head : α) (seen : List α) (value : α) :
    countBefore (head :: seen) value = if head = value then 0 else countBefore seen value + 1 := by
  unfold countBefore
  rw [List.takeWhile_cons]
  split
  next hne =>
    rw [if_neg (of_decide_eq_true hne), List.length_cons]
  next heq =>
    rw [decide_eq_true_iff, not_not] at heq
    rw [if_pos heq, List.length_nil]

/-- What is seen later changes no count. -/
theorem countBefore_of_prefix {seen later : List α} (hearlier : seen <+: later) {value : α}
    (hvalue : value ∈ seen) : countBefore later value = countBefore seen value := by
  induction seen generalizing later with
  | nil => cases hvalue
  | cons head rest ih =>
      obtain ⟨added, rfl⟩ := hearlier
      rw [List.cons_append, countBefore_cons, countBefore_cons]
      split
      · rfl
      next hne =>
        have hrest := (List.mem_cons.mp hvalue).resolve_left fun heq => hne heq.symm
        rw [ih (List.prefix_append _ _) hrest]

/-- Different values seen have different counts. -/
theorem countBefore_inj {seen : List α} {first second : α} (hfirst : first ∈ seen)
    (hsecond : second ∈ seen) (hcount : countBefore seen first = countBefore seen second) :
    first = second := by
  induction seen with
  | nil => cases hfirst
  | cons head rest ih =>
      rw [countBefore_cons, countBefore_cons] at hcount
      split at hcount
      next hhead =>
        split at hcount
        next hother => exact hhead.symm.trans hother
        next => cases hcount
      next hhead =>
        split at hcount
        next => cases hcount
        next hother =>
          exact ih ((List.mem_cons.mp hfirst).resolve_left fun heq => hhead heq.symm)
            ((List.mem_cons.mp hsecond).resolve_left fun heq => hother heq.symm)
            (Nat.succ.inj hcount)

end Unseen

/-! ## Two lists numbered alike -/

section Alike

variable [DecidableEq α] [DecidableEq β]

theorem countBefore_map {γ : Type*} [DecidableEq γ] {f : γ → α} {seen : List γ} {value : γ}
    (hinj : ∀ other ∈ seen, f other = f value ↔ other = value) :
    countBefore (seen.map f) (f value) = countBefore seen value := by
  induction seen with
  | nil => rfl
  | cons head rest ih =>
      rw [List.forall_mem_cons] at hinj
      rw [List.map_cons, countBefore_cons, countBefore_cons, ih hinj.2]
      simp only [hinj.1]

/-- Under a one-to-one pairing, what is seen on one side is what is seen of the pairs. -/
theorem addUnseen_map {γ : Type*} [DecidableEq γ] {f : γ → α} {seen values : List γ}
    (hinj : ∀ value ∈ values, ∀ other ∈ seen ++ values, f other = f value ↔ other = value) :
    addUnseen (seen.map f) (values.map f) = (addUnseen seen values).map f := by
  induction values generalizing seen with
  | nil => rfl
  | cons head rest ih =>
      have hmem : f head ∈ seen.map f ↔ head ∈ seen := by
        rw [List.mem_map]
        constructor
        · rintro ⟨other, hother, heq⟩
          have hsame := (hinj head List.mem_cons_self other (List.mem_append_left _ hother)).mp heq
          exact hsame ▸ hother
        · exact fun hhead => ⟨head, hhead, rfl⟩
      have hlater : ∀ value ∈ rest, ∀ other ∈
          (if head ∈ seen then seen else seen ++ [head]) ++ rest,
          f other = f value ↔ other = value := by
        intro value hvalue other hother
        refine hinj value (List.mem_cons_of_mem _ hvalue) other ?_
        rcases List.mem_append.mp hother with hold | hrest
        · split at hold
          · exact List.mem_append_left _ hold
          · rcases List.mem_append.mp hold with hseen | hhead
            · exact List.mem_append_left _ hseen
            · rw [List.mem_singleton.mp hhead]
              exact List.mem_append_right _ List.mem_cons_self
        · exact List.mem_append_right _ (List.mem_cons_of_mem _ hrest)
      rw [List.map_cons, addUnseen_cons, addUnseen_cons, ← ih hlater]
      simp only [hmem]
      split
      · rfl
      · rw [List.map_append, List.map_singleton]

theorem addUnseen_nil_map {γ : Type*} [DecidableEq γ] {f : γ → α} {values : List γ}
    (hinj : ∀ value ∈ values, ∀ other ∈ values, f other = f value ↔ other = value) :
    addUnseen [] (values.map f) = (addUnseen [] values).map f := by
  have hmap : addUnseen (List.map f []) (values.map f) = (addUnseen [] values).map f :=
    addUnseen_map hinj
  exact hmap

theorem mem_of_mem_addUnseen {values : List α} {value : α} (hvalue : value ∈ addUnseen [] values) :
    value ∈ values :=
  (mem_addUnseen.mp hvalue).resolve_left List.not_mem_nil

/-- Numbering by first appearance is the same on both sides of a pairing exactly when the pairing
is one-to-one. -/
theorem numbered_alike_iff (pairs : List (α × β)) :
    (∀ pair ∈ pairs, countBefore (addUnseen [] (pairs.map Prod.fst)) pair.1 =
      countBefore (addUnseen [] (pairs.map Prod.snd)) pair.2) ↔
    OneToOne fun a b => (a, b) ∈ pairs := by
  have hleft : ∀ pair ∈ pairs, pair.1 ∈ addUnseen [] (pairs.map Prod.fst) := fun pair hpair =>
    mem_addUnseen.mpr (.inr (List.mem_map_of_mem hpair))
  have hright : ∀ pair ∈ pairs, pair.2 ∈ addUnseen [] (pairs.map Prod.snd) := fun pair hpair =>
    mem_addUnseen.mpr (.inr (List.mem_map_of_mem hpair))
  constructor
  · intro halike a b a' b' hab hab'
    have hcount := halike _ hab
    have hcount' := halike _ hab'
    constructor
    · rintro rfl
      exact countBefore_inj (hright _ hab) (hright _ hab') (hcount.symm.trans hcount')
    · rintro rfl
      exact countBefore_inj (hleft _ hab) (hleft _ hab') (hcount.trans hcount'.symm)
  · intro hone pair hpair
    obtain ⟨hfst, hsnd⟩ := hone.sides
    rw [addUnseen_nil_map hfst, addUnseen_nil_map hsnd,
      countBefore_map fun other hother => hfst pair hpair other (mem_of_mem_addUnseen hother),
      countBefore_map fun other hother => hsnd pair hpair other (mem_of_mem_addUnseen hother)]

end Alike

/-! ## Ranks -/

section Ranks

variable {K L : Type*} [LinearOrder K] [LinearOrder L]

/-- In a list in strict order, a value's count is how many values are below it. -/
theorem countBefore_of_pairwise [DecidableEq α] {rank : α → K} {list : List α}
    (hlist : list.Pairwise fun a b => rank a < rank b) {value : α} (hvalue : value ∈ list) :
    countBefore list value = list.countP fun other => rank other < rank value := by
  induction list with
  | nil => cases hvalue
  | cons head rest ih =>
      obtain ⟨hhead, hrest⟩ := List.pairwise_cons.mp hlist
      rw [countBefore_cons, List.countP_cons]
      split
      next heq =>
        subst heq
        have hnone : rest.countP (fun other => decide (rank other < rank head)) = 0 := by
          rw [List.countP_eq_zero]
          intro other hother
          rw [decide_eq_true_iff, not_lt]
          exact (hhead other hother).le
        rw [hnone, if_neg (by simp)]
      next hne =>
        have hlater := (List.mem_cons.mp hvalue).resolve_left fun heq => hne heq.symm
        rw [ih hrest hlater, if_pos (decide_eq_true (hhead value hlater))]

theorem pairwise_mergeSort_lt {rank : α → K} {le : α → α → Bool} {list : List α}
    (hle : ∀ a ∈ list, ∀ b ∈ list, le a b = decide (rank a ≤ rank b))
    (hinj : ∀ a ∈ list, ∀ b ∈ list, rank a = rank b → a = b) (hnodup : list.Nodup) :
    (list.mergeSort le).Pairwise fun a b => rank a < rank b := by
  have hmap := List.map_mergeSort (s := fun first second => decide (first ≤ second)) hle
  have hsorted : ((list.map rank).mergeSort fun first second =>
      decide (first ≤ second)).Pairwise (· ≤ ·) := by
    refine (List.pairwise_mergeSort ?_ ?_ _).imp fun hfirst => of_decide_eq_true hfirst
    · intro a b c hab hbc
      exact decide_eq_true ((of_decide_eq_true hab).trans (of_decide_eq_true hbc))
    · intro a b
      rw [Bool.or_eq_true, decide_eq_true_iff, decide_eq_true_iff]
      exact le_total a b
  rw [← hmap] at hsorted
  have hdistinct : (list.mergeSort le).Nodup := (List.mergeSort_perm list le).nodup_iff.mpr hnodup
  have hmem : ∀ a ∈ list.mergeSort le, a ∈ list := fun a ha =>
    (List.mergeSort_perm list le).mem_iff.mp ha
  refine ((List.pairwise_map.mp hsorted).and hdistinct).imp_of_mem ?_
  rintro a b ha hb ⟨hab, hne⟩
  exact lt_of_le_of_ne hab fun heq => hne (hinj a (hmem a ha) b (hmem b hb) heq)

/-- The pairing keeps which of two values comes first. -/
def KeepsOrder (rank : α → K) (rank' : β → L) (pairs : α → β → Prop) : Prop :=
  ∀ a b a' b', pairs a b → pairs a' b' → (rank a < rank a' ↔ rank' b < rank' b')

theorem KeepsOrder.oneToOne {rank : α → K} {rank' : β → L} {pairs : α → β → Prop}
    (hkeeps : KeepsOrder rank rank' pairs)
    (hinj : ∀ a b a' b', pairs a b → pairs a' b' → rank a = rank a' → a = a')
    (hinj' : ∀ a b a' b', pairs a b → pairs a' b' → rank' b = rank' b' → b = b') :
    OneToOne pairs := by
  intro a b a' b' hab hab'
  constructor
  · rintro rfl
    refine hinj' a b a b' hab hab' (le_antisymm (not_lt.mp ?_) (not_lt.mp ?_))
    · exact fun hlt => lt_irrefl _ ((hkeeps a b' a b hab' hab).mpr hlt)
    · exact fun hlt => lt_irrefl _ ((hkeeps a b a b' hab hab').mpr hlt)
  · rintro rfl
    refine hinj a b a' b hab hab' (le_antisymm (not_lt.mp ?_) (not_lt.mp ?_))
    · exact fun hlt => lt_irrefl _ ((hkeeps a' b a b hab' hab).mp hlt)
    · exact fun hlt => lt_irrefl _ ((hkeeps a b a' b hab hab').mp hlt)

theorem countP_lt_iff {rank : α → K} {list : List α} {first second : α} (hfirst : first ∈ list) :
    (list.countP fun other => rank other < rank first) <
        (list.countP fun other => rank other < rank second) ↔ rank first < rank second := by
  constructor
  · intro hcount
    by_contra hle
    have hmono : (list.countP fun other => rank other < rank second) ≤
        list.countP fun other => rank other < rank first := by
      apply List.countP_mono_left
      intro other _ hother
      exact decide_eq_true ((of_decide_eq_true hother).trans_le (not_lt.mp hle))
    omega
  · intro hlt
    obtain ⟨before, after, rfl⟩ := List.append_of_mem hfirst
    have hmono : ∀ part : List α, (part.countP fun other => rank other < rank first) ≤
        part.countP fun other => rank other < rank second := by
      intro part
      apply List.countP_mono_left
      intro other _ hother
      exact decide_eq_true ((of_decide_eq_true hother).trans hlt)
    have hbefore := hmono before
    have hafter := hmono after
    rw [List.countP_append, List.countP_append, List.countP_cons, List.countP_cons,
      if_neg (by simp), if_pos (decide_eq_true hlt)]
    omega

variable [DecidableEq α] [DecidableEq β]

/-- The rank of a value is how many different values are below it. -/
theorem countBefore_mergeSort {rank : α → K} {le : α → α → Bool} {values : List α}
    (hle : ∀ a ∈ values, ∀ b ∈ values, le a b = decide (rank a ≤ rank b))
    (hinj : ∀ a ∈ values, ∀ b ∈ values, rank a = rank b → a = b) {value : α}
    (hvalue : value ∈ values) :
    countBefore ((addUnseen [] values).mergeSort le) value =
      (addUnseen [] values).countP fun other => rank other < rank value := by
  have hsorted := pairwise_mergeSort_lt
    (fun a ha b hb => hle a (mem_of_mem_addUnseen ha) b (mem_of_mem_addUnseen hb))
    (fun a ha b hb => hinj a (mem_of_mem_addUnseen ha) b (mem_of_mem_addUnseen hb))
    (nodup_addUnseen List.nodup_nil values)
  have hperm := List.mergeSort_perm (addUnseen [] values) le
  rw [countBefore_of_pairwise hsorted (hperm.mem_iff.mpr (mem_addUnseen.mpr (.inr hvalue))),
    hperm.countP_eq]

/-- Ranking is the same on both sides of a pairing exactly when the pairing keeps the order. -/
theorem ranked_alike_iff {rank : α → K} {rank' : β → L} {le : α → α → Bool} {le' : β → β → Bool}
    (pairs : List (α × β))
    (hle : ∀ a ∈ pairs.map Prod.fst, ∀ b ∈ pairs.map Prod.fst, le a b = decide (rank a ≤ rank b))
    (hle' : ∀ a ∈ pairs.map Prod.snd, ∀ b ∈ pairs.map Prod.snd,
      le' a b = decide (rank' a ≤ rank' b))
    (hinj : ∀ a ∈ pairs.map Prod.fst, ∀ b ∈ pairs.map Prod.fst, rank a = rank b → a = b)
    (hinj' : ∀ a ∈ pairs.map Prod.snd, ∀ b ∈ pairs.map Prod.snd, rank' a = rank' b → a = b) :
    (∀ pair ∈ pairs,
      countBefore ((addUnseen [] (pairs.map Prod.fst)).mergeSort le) pair.1 =
        countBefore ((addUnseen [] (pairs.map Prod.snd)).mergeSort le') pair.2) ↔
    KeepsOrder rank rank' fun a b => (a, b) ∈ pairs := by
  have hfst : ∀ pair ∈ pairs, pair.1 ∈ pairs.map Prod.fst := fun _ => List.mem_map_of_mem
  have hsnd : ∀ pair ∈ pairs, pair.2 ∈ pairs.map Prod.snd := fun _ => List.mem_map_of_mem
  have hrank : ∀ pair ∈ pairs,
      (countBefore ((addUnseen [] (pairs.map Prod.fst)).mergeSort le) pair.1 =
        countBefore ((addUnseen [] (pairs.map Prod.snd)).mergeSort le') pair.2) ↔
      ((addUnseen [] (pairs.map Prod.fst)).countP fun other => rank other < rank pair.1) =
        (addUnseen [] (pairs.map Prod.snd)).countP fun other => rank' other < rank' pair.2 := by
    intro pair hpair
    rw [countBefore_mergeSort hle hinj (hfst pair hpair),
      countBefore_mergeSort hle' hinj' (hsnd pair hpair)]
  constructor
  · intro halike a b a' b' hab hab'
    have hcount := (hrank _ hab).mp (halike _ hab)
    have hcount' := (hrank _ hab').mp (halike _ hab')
    rw [← countP_lt_iff (mem_addUnseen.mpr (.inr (hfst _ hab))), hcount, hcount',
      countP_lt_iff (mem_addUnseen.mpr (.inr (hsnd _ hab)))]
  · intro hkeeps pair hpair
    have hone := hkeeps.oneToOne
      (fun a b a' b' hab hab' => hinj a (hfst _ hab) a' (hfst _ hab'))
      (fun a b a' b' hab hab' => hinj' b (hsnd _ hab) b' (hsnd _ hab'))
    rw [hrank pair hpair, addUnseen_nil_map hone.sides.1, addUnseen_nil_map hone.sides.2,
      List.countP_map, List.countP_map]
    apply List.countP_congr
    intro other hother
    have hsame := hkeeps other.1 other.2 pair.1 pair.2 (mem_of_mem_addUnseen hother) hpair
    simpa using hsame

end Ranks

end Foundation
