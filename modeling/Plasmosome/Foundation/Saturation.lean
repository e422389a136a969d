import Plasmosome.Foundation.OrderedMap

/-!
# Worklists and rounds over a set that only grows

A worklist adds the neighbours of what it takes until nothing is left to
visit; rounds add a batch at a time until a batch is empty. Over a finite
domain both end, and a property every addition keeps holds of what they
return.
-/

namespace Foundation

open Std

variable {Element : Type*} [Ord Element] [TransOrd Element]

/-- The members of a finite domain a set has not taken yet. -/
def untaken (domain : Finset Element) (taken : OrderedSet Element) : Finset Element :=
  domain.filter fun element => element ∉ taken

@[simp] theorem mem_untaken {domain : Finset Element} {taken : OrderedSet Element}
    {element : Element} :
    element ∈ untaken domain taken ↔ element ∈ domain ∧ element ∉ taken := by
  simp [untaken]

theorem untaken_card_lt (domain : Finset Element) (taken more : OrderedSet Element)
    (hgrows : ∀ element, element ∈ taken → element ∈ more) {added : Element}
    (hadded : added ∈ untaken domain taken) (hmore : added ∈ more) :
    (untaken domain more).card < (untaken domain taken).card := by
  apply Finset.card_lt_card
  refine (Finset.ssubset_iff_of_subset ?_).mpr ⟨added, hadded, by simp [hmore]⟩
  intro element helement
  obtain ⟨hdomain, hnew⟩ := mem_untaken.mp helement
  exact mem_untaken.mpr ⟨hdomain, fun htaken => hnew (hgrows element htaken)⟩

variable [LawfulEqOrd Element]

theorem mem_insert_iff {taken : OrderedSet Element} {element new : Element} :
    element ∈ taken.insert new ↔ new = element ∨ element ∈ taken := by
  simp [ExtTreeSet.mem_insert]

/-! ## Worklists -/

namespace Worklist

/-- Takes an element if it is new, and then puts it on top of the stack. -/
def visit (taken : OrderedSet Element) (stack : List Element) (element : Element) :
    OrderedSet Element × List Element :=
  if element ∈ taken then (taken, stack) else (taken.insert element, element :: stack)

/-- Visits each of a list of elements, in order. -/
def visitAll (taken : OrderedSet Element) (stack : List Element) (elements : List Element) :
    OrderedSet Element × List Element :=
  elements.foldl (fun state element => visit state.1 state.2 element) (taken, stack)

/-- Pops an element and visits its neighbours until the stack is empty. -/
def drain (neighbours : Element → List Element) :
    Nat → OrderedSet Element → List Element → Option (OrderedSet Element)
  | _, taken, [] => some taken
  | 0, _, _ :: _ => none
  | fuel + 1, taken, top :: rest =>
      let visited := visitAll taken rest (neighbours top)
      drain neighbours fuel visited.1 visited.2

variable {neighbours : Element → List Element}

theorem mem_visitAll (elements : List Element) (taken : OrderedSet Element)
    (stack : List Element) (element : Element) :
    element ∈ (visitAll taken stack elements).1 ↔ element ∈ taken ∨ element ∈ elements := by
  induction elements generalizing taken stack with
  | nil => simp [visitAll]
  | cons head tail ih =>
      have hhead : element ∈ (visit taken stack head).1 ↔ element ∈ taken ∨ element = head := by
        rw [visit]
        split
        next htaken =>
          constructor
          · exact Or.inl
          · rintro (hold | rfl)
            · exact hold
            · exact htaken
        next => rw [mem_insert_iff, or_comm, eq_comm]
      have hcons : visitAll taken stack (head :: tail) =
          visitAll (visit taken stack head).1 (visit taken stack head).2 tail := rfl
      rw [hcons, ih, hhead, List.mem_cons, or_assoc]

/-- Visiting keeps what was stacked and stacks exactly what it takes. -/
theorem mem_visitAll_stack (elements : List Element) (taken : OrderedSet Element)
    (stack : List Element) (element : Element) :
    element ∈ (visitAll taken stack elements).2 ↔
      element ∈ stack ∨ (element ∉ taken ∧ element ∈ elements) := by
  induction elements generalizing taken stack with
  | nil => simp [visitAll]
  | cons head tail ih =>
      have hcons : visitAll taken stack (head :: tail) =
          visitAll (visit taken stack head).1 (visit taken stack head).2 tail := rfl
      rw [hcons, ih, visit]
      split
      next htaken => grind
      next hnew =>
        simp only [mem_insert_iff, List.mem_cons]
        grind

/-- Each stacked element costs one untaken member of the domain. -/
theorem visitAll_cost {domain : Finset Element} (elements : List Element)
    (helements : ∀ element ∈ elements, element ∈ domain) (taken : OrderedSet Element)
    (stack : List Element) :
    (visitAll taken stack elements).2.length +
        (untaken domain (visitAll taken stack elements).1).card ≤
      stack.length + (untaken domain taken).card := by
  induction elements generalizing taken stack with
  | nil => exact le_rfl
  | cons head tail ih =>
      have hcons : visitAll taken stack (head :: tail) =
          visitAll (visit taken stack head).1 (visit taken stack head).2 tail := rfl
      rw [hcons]
      refine (ih (fun element h => helements element (List.mem_cons_of_mem _ h)) _ _).trans ?_
      rw [visit]
      split
      next => exact le_rfl
      next hnew =>
        have hless := untaken_card_lt domain taken (taken.insert head)
          (fun element h => mem_insert_iff.mpr (Or.inr h))
          (mem_untaken.mpr ⟨helements head List.mem_cons_self, hnew⟩)
          (mem_insert_iff.mpr (Or.inl rfl))
        simp only [List.length_cons]
        omega

/-- What was taken and is no longer stacked has had all its neighbours taken. -/
structure Exploring (neighbours : Element → List Element) (taken : OrderedSet Element)
    (stack : List Element) : Prop where
  stacked : ∀ element ∈ stack, element ∈ taken
  visited : ∀ element, element ∈ taken → element ∉ stack →
    ∀ neighbour ∈ neighbours element, neighbour ∈ taken

theorem Exploring.step {taken : OrderedSet Element} {top : Element} {rest : List Element}
    (hexploring : Exploring neighbours taken (top :: rest)) :
    Exploring neighbours (visitAll taken rest (neighbours top)).1
      (visitAll taken rest (neighbours top)).2 where
  stacked element helement := by
    rw [mem_visitAll]
    rcases (mem_visitAll_stack _ _ _ _).mp helement with hrest | hnew
    · exact Or.inl (hexploring.stacked element (List.mem_cons_of_mem _ hrest))
    · exact Or.inr hnew.2
  visited element htaken hstack neighbour hneighbour := by
    rw [mem_visitAll] at htaken ⊢
    rw [mem_visitAll_stack] at hstack
    push Not at hstack
    have hold : element ∈ taken := by
      by_contra hnew
      exact hstack.2 hnew (htaken.resolve_left hnew)
    by_cases htop : element = top
    · exact Or.inr (htop ▸ hneighbour)
    · refine Or.inl (hexploring.visited element hold ?_ neighbour hneighbour)
      simp [htop, hstack.1]

/-- A drained worklist holds the least set that has what was taken and the neighbours of
its own members. -/
theorem drain_spec {domain : Finset Element}
    (hdomain : ∀ element, ∀ neighbour ∈ neighbours element, neighbour ∈ domain)
    (fuel : Nat) {taken : OrderedSet Element} {stack : List Element}
    (hexploring : Exploring neighbours taken stack)
    (hfuel : stack.length + (untaken domain taken).card ≤ fuel) :
    ∃ result, drain neighbours fuel taken stack = some result ∧
      (∀ element, element ∈ taken → element ∈ result) ∧
      (∀ element, element ∈ result → ∀ neighbour ∈ neighbours element, neighbour ∈ result) ∧
      ∀ closed : Set Element, (∀ element, element ∈ taken → element ∈ closed) →
        (∀ element ∈ closed, ∀ neighbour ∈ neighbours element, neighbour ∈ closed) →
        ∀ element, element ∈ result → element ∈ closed := by
  induction fuel generalizing taken stack with
  | zero =>
      have hstack : stack = [] := List.length_eq_zero_iff.mp (by omega)
      subst hstack
      exact ⟨taken, rfl, fun _ h => h,
        fun element h => hexploring.visited element h List.not_mem_nil, fun _ h _ => h⟩
  | succ fuel ih =>
      cases stack with
      | nil =>
          exact ⟨taken, rfl, fun _ h => h,
            fun element h => hexploring.visited element h List.not_mem_nil, fun _ h _ => h⟩
      | cons top rest =>
          have hcost := visitAll_cost (neighbours top) (hdomain top) taken rest
          obtain ⟨result, hresult, hgrows, hclosed, hleast⟩ :=
            ih hexploring.step (by simp only [List.length_cons] at hfuel; omega)
          refine ⟨result, hresult, ?_, hclosed, ?_⟩
          · intro element helement
            exact hgrows element ((mem_visitAll _ _ _ _).mpr (Or.inl helement))
          · intro closed hstart hkeeps
            refine hleast closed ?_ hkeeps
            intro element helement
            rcases (mem_visitAll _ _ _ _).mp helement with hold | hnew
            · exact hstart element hold
            · exact hkeeps top (hstart top (hexploring.stacked top List.mem_cons_self))
                element hnew

/-- Pops an element and visits its neighbours until the stack is empty, or until the neighbours of
an element cannot be read. -/
def drainReading {Fault : Type*} (read : Element → Except Fault (List Element)) :
    Nat → OrderedSet Element → List Element → Except Fault (Option (OrderedSet Element))
  | _, taken, [] => .ok (some taken)
  | 0, _, _ :: _ => .ok none
  | fuel + 1, taken, top :: rest =>
      match read top with
      | .error fault => .error fault
      | .ok neighbours =>
          let visited := visitAll taken rest neighbours
          drainReading read fuel visited.1 visited.2

/-- Where the neighbours of everything that can be met are read, the worklist drains as it does
over them. -/
theorem drainReading_eq_drain {Fault : Type*} {read : Element → Except Fault (List Element)}
    {domain : Set Element} (hread : ∀ element ∈ domain, read element = .ok (neighbours element))
    (hdomain : ∀ element ∈ domain, ∀ neighbour ∈ neighbours element, neighbour ∈ domain)
    (fuel : Nat) {taken : OrderedSet Element} {stack : List Element}
    (hstack : ∀ element ∈ stack, element ∈ domain) :
    drainReading read fuel taken stack = .ok (drain neighbours fuel taken stack) := by
  induction fuel generalizing taken stack with
  | zero => cases stack <;> rfl
  | succ fuel ih =>
      cases stack with
      | nil => rfl
      | cons top rest =>
          have htop := hstack top List.mem_cons_self
          rw [drainReading, hread top htop, drain]
          refine ih fun element helement => ?_
          rcases (mem_visitAll_stack _ _ _ _).mp helement with hrest | hnew
          · exact hstack element (List.mem_cons_of_mem _ hrest)
          · exact hdomain top htop element hnew.2

/-- A worklist that reads its neighbours ends, whether or not it can read them. -/
theorem drainReading_ends {Fault : Type*} {read : Element → Except Fault (List Element)}
    {domain : Finset Element}
    (hdomain : ∀ element neighbours, read element = .ok neighbours →
      ∀ neighbour ∈ neighbours, neighbour ∈ domain)
    (fuel : Nat) {taken : OrderedSet Element} {stack : List Element}
    (hfuel : stack.length + (untaken domain taken).card ≤ fuel) :
    drainReading read fuel taken stack ≠ .ok none := by
  induction fuel generalizing taken stack with
  | zero =>
      have hstack : stack = [] := List.length_eq_zero_iff.mp (by omega)
      rw [hstack]
      exact nofun
  | succ fuel ih =>
      cases stack with
      | nil => exact nofun
      | cons top rest =>
          rw [drainReading]
          split
          next => exact nofun
          next neighbours hread =>
            have hcost := visitAll_cost neighbours (hdomain top neighbours hread) taken rest
            exact ih (by simp only [List.length_cons] at hfuel; omega)

/-- From a stack that holds just what was taken, a worklist takes exactly what the stack reaches. -/
theorem drainReading_reaches {Fault : Type*} {read : Element → Except Fault (List Element)}
    {reaches : Element → Element → Prop} {readable : Set Element} {domain : Finset Element}
    (hread : ∀ element ∈ readable, ∃ neighbours, read element = .ok neighbours ∧
      ∀ neighbour, neighbour ∈ neighbours ↔ reaches element neighbour)
    (hreadable : ∀ element ∈ readable, ∀ neighbour, reaches element neighbour →
      neighbour ∈ readable)
    (hdomain : ∀ element neighbours, read element = .ok neighbours →
      ∀ neighbour ∈ neighbours, neighbour ∈ domain)
    (fuel : Nat) {taken : OrderedSet Element} {stack : List Element}
    (htaken : ∀ element, element ∈ taken ↔ element ∈ stack)
    (hstack : ∀ element ∈ stack, element ∈ readable)
    (hfuel : stack.length + (untaken domain taken).card ≤ fuel) :
    ∃ result, drainReading read fuel taken stack = .ok (some result) ∧
      ∀ element, element ∈ result ↔ ∃ start ∈ stack, Relation.ReflTransGen reaches start element := by
  let neighbours : Element → List Element := fun element =>
    match read element with
    | .ok found => found
    | .error _ => []
  have hplain : ∀ element ∈ readable, read element = .ok (neighbours element) ∧
      ∀ neighbour, neighbour ∈ neighbours element ↔ reaches element neighbour := by
    intro element helement
    obtain ⟨found, hfound, hmem⟩ := hread element helement
    have hsame : neighbours element = found := by simp only [neighbours, hfound]
    rw [hsame]
    exact ⟨hfound, hmem⟩
  have hbounded : ∀ element, ∀ neighbour ∈ neighbours element, neighbour ∈ domain := by
    intro element neighbour hneighbour
    cases hfound : read element with
    | ok found =>
        have hsame : neighbours element = found := by simp only [neighbours, hfound]
        exact hdomain element found hfound neighbour (hsame ▸ hneighbour)
    | error fault =>
        have hsame : neighbours element = [] := by simp only [neighbours, hfound]
        rw [hsame] at hneighbour
        cases hneighbour
  have hexploring : Exploring neighbours taken stack :=
    ⟨fun element helement => (htaken element).mpr helement,
      fun element helement hstack => (hstack ((htaken element).mp helement)).elim⟩
  obtain ⟨result, hresult, hgrows, hclosed, hleast⟩ := drain_spec hbounded fuel hexploring hfuel
  have hinside : ∀ start ∈ stack, ∀ element, Relation.ReflTransGen reaches start element →
      element ∈ readable := by
    intro start hstart element hpath
    induction hpath with
    | refl => exact hstack start hstart
    | tail _ hedge ih => exact hreadable _ ih _ hedge
  refine ⟨result, ?_, fun element => ⟨fun helement => ?_, ?_⟩⟩
  · rw [drainReading_eq_drain (fun element helement => (hplain element helement).1)
      (fun element helement neighbour hneighbour => hreadable element helement neighbour
        (((hplain element helement).2 neighbour).mp hneighbour)) fuel hstack, hresult]
  · refine hleast {element | ∃ start ∈ stack, Relation.ReflTransGen reaches start element}
      (fun start hstart => ⟨start, (htaken start).mp hstart, .refl⟩) ?_ element helement
    rintro near ⟨start, hstart, hpath⟩ far hfar
    have hnear := hinside start hstart near hpath
    exact ⟨start, hstart, hpath.tail (((hplain near hnear).2 far).mp hfar)⟩
  · rintro ⟨start, hstart, hpath⟩
    induction hpath with
    | refl => exact hgrows start ((htaken start).mpr hstart)
    | @tail near far hnear hedge ih =>
        have hreadable := hinside start hstart near hnear
        exact hclosed near ih far (((hplain near hreadable).2 far).mpr hedge)

end Worklist

/-! ## Rounds -/

namespace Rounds

/-- Adds what a round finds until a round finds nothing. A round can fail. -/
def saturate (round : OrderedSet Element → Option (List Element)) :
    Nat → OrderedSet Element → Option (OrderedSet Element)
  | 0, _ => none
  | fuel + 1, taken => do
      let found ← round taken
      if found.isEmpty then some taken else saturate round fuel (taken.insertMany found)

variable [DecidableEq Element]

theorem mem_insertMany_iff {taken : OrderedSet Element} {found : List Element}
    {element : Element} :
    element ∈ taken.insertMany found ↔ element ∈ taken ∨ element ∈ found := by
  simp [ExtTreeSet.mem_insertMany_list]

/-- Rounds that succeed on what satisfies an invariant, find only new members of a finite
domain and keep the invariant, end where a round finds nothing. -/
theorem saturate_spec {round : OrderedSet Element → Option (List Element)}
    {domain : Finset Element} {invariant : OrderedSet Element → Prop}
    (hround : ∀ taken, invariant taken → ∃ found, round taken = some found ∧
      (∀ element ∈ found, element ∈ untaken domain taken) ∧
      invariant (taken.insertMany found))
    (fuel : Nat) {taken : OrderedSet Element} (htaken : invariant taken)
    (hfuel : (untaken domain taken).card < fuel) :
    ∃ result, saturate round fuel taken = some result ∧ invariant result ∧
      round result = some [] := by
  induction fuel generalizing taken with
  | zero => omega
  | succ fuel ih =>
      obtain ⟨found, hfound, hnew, hkeeps⟩ := hround taken htaken
      cases found with
      | nil => exact ⟨taken, by simp [saturate, hfound], htaken, hfound⟩
      | cons first rest =>
          have hless := untaken_card_lt domain taken (taken.insertMany (first :: rest))
            (fun element h => mem_insertMany_iff.mpr (Or.inl h))
            (hnew first List.mem_cons_self)
            (mem_insertMany_iff.mpr (Or.inr List.mem_cons_self))
          obtain ⟨result, hresult, hrest⟩ := ih hkeeps (by omega)
          exact ⟨result, by simpa [saturate, hfound] using hresult, hrest⟩

end Rounds

end Foundation
