import Plasmosome.Journal.History

/-!
# What each part of a history does

One lemma for each loop of the check and of the application: which addresses an
accepted prepare names, and what every address maps to afterwards.
-/

namespace Plasmosome.Journal

open Foundation Backend Std

/-! ## The effects a list of changes names -/

/-- The effects of the changes, each with the plugin it is for, in order. -/
def named (changes : List Change) : List (PluginId × RecordedEffect) :=
  changes.flatMap fun change => change.effects.map fun effect => (change.plugin, effect)

@[simp] theorem named_nil : named [] = [] := rfl

@[simp] theorem named_cons (change : Change) (rest : List Change) :
    named (change :: rest) =
      change.effects.map (fun effect => (change.plugin, effect)) ++ named rest := rfl

theorem mem_named {changes : List Change} {plugin : PluginId} {effect : RecordedEffect} :
    (plugin, effect) ∈ named changes ↔
      ∃ change ∈ changes, change.plugin = plugin ∧ effect ∈ change.effects := by
  simp only [named, List.mem_flatMap, List.mem_map, Prod.mk.injEq]
  constructor
  · rintro ⟨change, hchange, _, heffect, hplugin, rfl⟩
    exact ⟨change, hchange, hplugin, heffect⟩
  · rintro ⟨change, hchange, hplugin, heffect⟩
    exact ⟨change, hchange, effect, heffect, hplugin, rfl⟩

/-- The named addresses, in order. -/
def namedAddresses (changes : List Change) : List Handle :=
  changes.flatMap Change.addresses

theorem filterMap_named (changes : List Change) :
    (named changes).filterMap (fun pair => pair.2.address) = namedAddresses changes := by
  simp only [named, List.filterMap_flatMap, List.filterMap_map]
  rfl

/-- When no address is named twice, an address has one effect. -/
theorem eq_of_nodup_filterMap {α β : Type} {f : α → Option β} {list : List α}
    (hnodup : (list.filterMap f).Nodup) {a b : α} (ha : a ∈ list) (hb : b ∈ list) {value : β}
    (hfa : f a = some value) (hfb : f b = some value) : a = b := by
  induction list with
  | nil => cases ha
  | cons head tail ih =>
      cases hhead : f head with
      | none =>
          rw [List.filterMap_cons_none hhead] at hnodup
          rcases List.mem_cons.mp ha with rfl | ha
          · rw [hfa] at hhead
            cases hhead
          · rcases List.mem_cons.mp hb with rfl | hb
            · rw [hfb] at hhead
              cases hhead
            · exact ih hnodup ha hb
      | some other =>
          rw [List.filterMap_cons_some hhead, List.nodup_cons] at hnodup
          have hfirst : ∀ c ∈ tail, f c = some value → other ≠ value := by
            intro c hc hfc hsame
            exact hnodup.1 (List.mem_filterMap.mpr ⟨c, hc, hsame ▸ hfc⟩)
          rcases List.mem_cons.mp ha with rfl | hatail
          · rw [hfa] at hhead
            cases hhead
            rcases List.mem_cons.mp hb with rfl | hbtail
            · rfl
            · exact absurd rfl (hfirst b hbtail hfb)
          · rcases List.mem_cons.mp hb with rfl | hbtail
            · rw [hfb] at hhead
              cases hhead
              exact absurd rfl (hfirst a hatail hfa)
            · exact ih hnodup.2 hatail hbtail

/-! ## The check of the identities -/

/-- The loop saw these addresses, none twice. -/
structure Fresh (seen : OrderedSet Handle) (addresses : List Handle)
    (after : OrderedSet Handle) : Prop where
  nodup : addresses.Nodup
  unseen : ∀ address ∈ addresses, address ∉ seen
  after : ∀ address, address ∈ after ↔ address ∈ seen ∨ address ∈ addresses

namespace Fresh

theorem nil (seen : OrderedSet Handle) : Fresh seen [] seen :=
  ⟨List.nodup_nil, nofun, by simp⟩

theorem singleton {seen : OrderedSet Handle} {address : Handle} (hunseen : address ∉ seen) :
    Fresh seen [address] (seen.insert address) := by
  refine ⟨List.nodup_singleton _, by simpa using hunseen, ?_⟩
  intro other
  rw [ExtTreeSet.mem_insert, LawfulEqCmp.compare_eq_iff_eq, List.mem_singleton, or_comm, eq_comm]

theorem append {seen middle after : OrderedSet Handle} {first second : List Handle}
    (hfirst : Fresh seen first middle) (hsecond : Fresh middle second after) :
    Fresh seen (first ++ second) after := by
  refine ⟨?_, ?_, ?_⟩
  · refine List.nodup_append.mpr ⟨hfirst.nodup, hsecond.nodup, ?_⟩
    rintro address haddress _ hagain rfl
    exact hsecond.unseen address hagain ((hfirst.after address).mpr (.inr haddress))
  · intro address haddress hseen
    rcases List.mem_append.mp haddress with hin | hin
    · exact hfirst.unseen address hin hseen
    · exact hsecond.unseen address hin ((hfirst.after address).mpr (.inl hseen))
  · intro address
    rw [hsecond.after, hfirst.after, List.mem_append, or_assoc]

/-- A loop whose every turn sees fresh addresses sees fresh addresses. -/
theorem foldlM {α : Type} {visit : OrderedSet Handle → α → Except JournalRuleError
      (OrderedSet Handle)} {addresses : α → List Handle} {promise : α → Prop}
    (hvisit : ∀ seen a after, visit seen a = .ok after →
      Fresh seen (addresses a) after ∧ promise a)
    {list : List α} {seen after : OrderedSet Handle} (hloop : list.foldlM visit seen = .ok after) :
    Fresh seen (list.flatMap addresses) after ∧ ∀ a ∈ list, promise a := by
  induction list generalizing seen with
  | nil =>
      cases hloop
      exact ⟨.nil _, nofun⟩
  | cons head tail ih =>
      rw [List.foldlM_cons, bind_eq_ok] at hloop
      obtain ⟨middle, hhead, htail⟩ := hloop
      obtain ⟨hfirst, hpromise⟩ := hvisit _ _ _ hhead
      obtain ⟨hsecond, hpromises⟩ := ih htail
      exact ⟨hfirst.append hsecond, List.forall_mem_cons.mpr ⟨hpromise, hpromises⟩⟩

end Fresh

namespace CellHistory

variable {history : CellHistory}

/-- An address the effect may take: unrecorded, or standing for this very effect. -/
def Free (history : CellHistory) (plugin : PluginId) (effect : RecordedEffect) : Prop :=
  ∀ address identity, effect.address = some address →
    history.identities[address]? = some identity → identity = ⟨plugin, effect, .standing⟩

theorem checkEffect_eq_ok {plugin : PluginId} {seen after : OrderedSet Handle}
    {effect : RecordedEffect} (hcheck : history.checkEffect plugin seen effect = .ok after) :
    Fresh seen effect.address.toList after ∧ history.Free plugin effect := by
  unfold checkEffect at hcheck
  split at hcheck
  next hnone =>
    cases hcheck
    rw [hnone]
    refine ⟨.nil _, ?_⟩
    intro address identity haddress
    rw [hnone] at haddress
    cases haddress
  next address haddress =>
    rw [haddress]
    split at hcheck
    · cases hcheck
    next hcontains =>
      have hunseen : address ∉ seen := fun hseen => hcontains (ExtTreeSet.mem_iff_contains.mp hseen)
      split at hcheck
      next hunrecorded =>
        cases hcheck
        refine ⟨.singleton hunseen, ?_⟩
        intro other identity hother hidentity
        rw [haddress] at hother
        cases hother
        rw [hunrecorded] at hidentity
        cases hidentity
      next identity hrecorded =>
        split at hcheck
        · cases hcheck
        next heffect =>
          split at hcheck
          · cases hcheck
          next hholding =>
            cases hcheck
            refine ⟨.singleton hunseen, ?_⟩
            intro other found hother hfound
            rw [haddress] at hother
            cases hother
            rw [hrecorded] at hfound
            cases hfound
            obtain ⟨hplugin, hstate⟩ := not_or.mp hholding
            obtain ⟨_, _, _⟩ := identity
            rw [not_not] at heffect hplugin hstate
            cases heffect
            cases hplugin
            cases hstate
            rfl

theorem checkChange_eq_ok {seen after : OrderedSet Handle} {change : Change}
    (hcheck : history.checkChange seen change = .ok after) :
    Fresh seen change.addresses after ∧
      ∀ effect ∈ change.effects, history.Free change.plugin effect := by
  unfold checkChange at hcheck
  obtain ⟨plugin, replacement⟩ := change
  cases replacement with
  | none =>
      simp only at hcheck
      split at hcheck
      · cases hcheck
        exact ⟨.nil _, fun effect heffect => absurd heffect List.not_mem_nil⟩
      · cases hcheck
  | some replacement =>
      have hvisit : ∀ seen effect after, history.checkEffect plugin seen effect = .ok after →
          Fresh seen effect.address.toList after ∧ history.Free plugin effect :=
        fun _ _ _ => checkEffect_eq_ok
      obtain ⟨hfresh, hfree⟩ := Fresh.foldlM hvisit hcheck
      refine ⟨?_, ?_⟩
      · simpa [Change.addresses, Change.effects, List.filterMap_eq_flatMap_toList] using hfresh
      · simpa [Change.effects] using hfree

/-- An accepted prepare names no address twice, and each only where it is free. -/
theorem checkIdentities_eq_ok {prepare : Prepare}
    (hcheck : history.checkIdentities prepare = .ok ()) :
    (namedAddresses prepare.changes).Nodup ∧
      ∀ pair ∈ named prepare.changes, history.Free pair.1 pair.2 := by
  unfold checkIdentities at hcheck
  obtain ⟨after, hloop, -⟩ := bind_eq_ok.mp hcheck
  have hvisit : ∀ seen change after, history.checkChange seen change = .ok after →
      Fresh seen change.addresses after ∧
        ∀ effect ∈ change.effects, history.Free change.plugin effect :=
    fun _ _ _ => checkChange_eq_ok
  obtain ⟨hfresh, hfree⟩ := Fresh.foldlM hvisit hloop
  refine ⟨hfresh.nodup, ?_⟩
  intro pair hpair
  obtain ⟨change, hchange, hplugin, heffect⟩ := mem_named.mp hpair
  rw [← hplugin]
  exact hfree change hchange pair.2 heffect

/-- The record continues the history: a prepare in its turn, or the next event of the open one. -/
inductive Accepts (history : CellHistory) : CellJournalRecord → Prop where
  | prepare (generation : UInt64) (prepare : Prepare) (hclosed : history.openTransaction = none)
      (hnext : history.nextGeneration = some generation)
      (hidentities : history.checkIdentities prepare = .ok ()) :
      Accepts history ⟨generation, .prepare prepare⟩
  | commit (generation : UInt64) (prepare : Prepare)
      (hopen : history.openTransaction = some ⟨generation, prepare, none⟩) :
      Accepts history ⟨generation, .commit⟩
  | abort (generation : UInt64) (prepare : Prepare)
      (hopen : history.openTransaction = some ⟨generation, prepare, none⟩) :
      Accepts history ⟨generation, .abort⟩
  | finish (generation : UInt64) (prepare : Prepare) (decision : Decision)
      (hopen : history.openTransaction = some ⟨generation, prepare, some decision⟩) :
      Accepts history ⟨generation, .finish⟩

/-- A record no generation or order rule refuses is in its turn. -/
theorem refusal_eq_none {record : CellJournalRecord} (hrefusal : history.refusal record = none) :
    record.generation ≠ 0 ∧
      match record.event with
      | .prepare _ =>
          history.openTransaction = none ∧ history.nextGeneration = some record.generation
      | .commit | .abort =>
          ∃ prepare, history.openTransaction = some ⟨record.generation, prepare, none⟩
      | .finish => ∃ prepare decision,
          history.openTransaction = some ⟨record.generation, prepare, some decision⟩ := by
  obtain ⟨generation, event⟩ := record
  unfold refusal at hrefusal
  split at hrefusal
  · cases hrefusal
  next hzero =>
    refine ⟨hzero, ?_⟩
    split at hrefusal
    next hopen hevent =>
      split at hrefusal
      · cases hrefusal
      next hnext =>
        simp only at hevent
        subst hevent
        exact ⟨hopen, not_not.mp hnext⟩
    next => cases hrefusal
    next => cases hrefusal
    next opened hopen hnotPrepare =>
      obtain ⟨openGeneration, prepare, decision⟩ := opened
      split at hrefusal
      · cases hrefusal
      next hgeneration =>
        cases not_not.mp hgeneration
        cases event with
        | prepare prepare => exact absurd rfl (hnotPrepare prepare)
        | commit | abort =>
            cases decision with
            | none => exact ⟨prepare, hopen⟩
            | some decision => simp at hrefusal
        | finish =>
            cases decision with
            | none => simp at hrefusal
            | some decision => exact ⟨prepare, decision, hopen⟩

/-- The check accepts exactly the records that continue the history. -/
theorem check_eq_ok {record : CellJournalRecord} :
    history.check record = .ok () ↔ record.generation ≠ 0 ∧ history.Accepts record := by
  constructor
  · intro hcheck
    unfold check at hcheck
    split at hcheck
    · cases hcheck
    next hrefusal =>
      obtain ⟨generation, event⟩ := record
      obtain ⟨hzero, hturn⟩ := refusal_eq_none hrefusal
      refine ⟨hzero, ?_⟩
      cases event with
      | prepare prepare => exact .prepare generation prepare hturn.1 hturn.2 hcheck
      | commit =>
          obtain ⟨prepare, hopen⟩ := hturn
          exact .commit generation prepare hopen
      | abort =>
          obtain ⟨prepare, hopen⟩ := hturn
          exact .abort generation prepare hopen
      | finish =>
          obtain ⟨prepare, decision, hopen⟩ := hturn
          exact .finish generation prepare decision hopen
  · rintro ⟨hzero, haccepts⟩
    cases haccepts with
    | prepare generation prepare hclosed hnext hidentities =>
        have hnonzero : generation ≠ 0 := hzero
        simp [check, refusal, hnonzero, hclosed, hnext, hidentities]
    | commit generation prepare hopen =>
        have hnonzero : generation ≠ 0 := hzero
        simp [check, refusal, hnonzero, hopen]
    | abort generation prepare hopen =>
        have hnonzero : generation ≠ 0 := hzero
        simp [check, refusal, hnonzero, hopen]
    | finish generation prepare decision hopen =>
        have hnonzero : generation ≠ 0 := hzero
        simp [check, refusal, hnonzero, hopen]

/-! ## Introducing, marking and publishing -/

theorem introduce_getElem? (plugin : PluginId) (identities : Identities)
    (effect : RecordedEffect) (address : Handle) :
    (introduce plugin identities effect)[address]? =
      identities[address]?.or
        (if effect.address = some address then some ⟨plugin, effect, .introduced⟩ else none) := by
  unfold introduce
  cases heffect : effect.address with
  | none => simp
  | some other =>
      rw [ExtTreeMap.getElem?_insertIfNew]
      by_cases hsame : other = address
      · subst hsame
        cases hrecorded : identities[other]? with
        | none =>
            have hnew : other ∉ identities := by
              rw [ExtTreeMap.mem_iff_isSome_getElem?, hrecorded]
              exact Bool.false_ne_true
            simp [hnew]
        | some identity =>
            have hold : other ∈ identities := by
              rw [ExtTreeMap.mem_iff_isSome_getElem?, hrecorded]
              rfl
            simp [hold]
      · simp [hsame]

/-- What introducing a list of changes does to an address: the first effect naming it counts. -/
theorem foldl_introduce_getElem? (pairs : List (PluginId × RecordedEffect))
    (identities : Identities) (address : Handle) :
    (pairs.foldl (fun identities pair => introduce pair.1 identities pair.2) identities)[address]? =
      identities[address]?.or
        ((pairs.find? fun pair => pair.2.address = some address).map fun pair =>
          ⟨pair.1, pair.2, .introduced⟩) := by
  induction pairs generalizing identities with
  | nil => simp
  | cons pair rest ih =>
      rw [List.foldl_cons, ih, introduce_getElem?, Option.or_assoc]
      by_cases hnames : pair.2.address = some address
      · simp [hnames]
      · simp [hnames]

theorem foldl_introduceChange (changes : List Change) (identities : Identities) :
    changes.foldl introduceChange identities =
      (named changes).foldl (fun identities pair => introduce pair.1 identities pair.2)
        identities := by
  induction changes generalizing identities with
  | nil => rfl
  | cons change rest ih =>
      rw [List.foldl_cons, ih, named_cons, List.foldl_append, List.foldl_map]
      rfl

/-- Setting the state of recorded addresses never panics, and changes nothing else. -/
theorem foldlM_setState (state : State) (addresses : List Handle) {identities : Identities}
    (hrecorded : ∀ address ∈ addresses, ∃ identity, identities[address]? = some identity) :
    ∃ next, addresses.foldlM (setState state) identities = .ok next ∧
      ∀ address : Handle, next[address]? =
        if address ∈ addresses then
          identities[address]?.map fun identity => { identity with state }
        else identities[address]? := by
  induction addresses generalizing identities with
  | nil => exact ⟨identities, rfl, by simp⟩
  | cons head rest ih =>
      obtain ⟨first, hfirst⟩ := hrecorded head List.mem_cons_self
      have hset : setState state identities head =
          .ok (identities.insert head { first with state }) := by
        rw [setState, hfirst]
      have hlookup : ∀ address : Handle,
          (identities.insert head { first with state })[address]? =
            if head = address then some { first with state } else identities[address]? :=
        fun address => OrderedMap.getElem?_insert' _ _ _ _
      have hstill : ∀ address ∈ rest, ∃ identity,
          (identities.insert head { first with state })[address]? = some identity := by
        intro address haddress
        rw [hlookup]
        split
        · exact ⟨_, rfl⟩
        · exact hrecorded address (List.mem_cons_of_mem _ haddress)
      obtain ⟨next, hnext, hafter⟩ := ih hstill
      refine ⟨next, ?_, ?_⟩
      · rw [List.foldlM_cons, hset]
        exact hnext
      · intro address
        rw [hafter, hlookup]
        by_cases hhead : head = address
        · subst hhead
          by_cases hrest : head ∈ rest
          · simp [hrest, hfirst]
          · simp [hrest, hfirst]
        · have hne : address ≠ head := fun hsame => hhead hsame.symm
          simp [hhead, hne]

theorem publishChange_getElem? (generation : UInt64) (committed : Committed) (change : Change)
    (plugin : PluginId) :
    (publishChange generation committed change)[plugin]? =
      if change.plugin = plugin then change.replacement.map (Attachment.mk generation)
      else committed[plugin]? := by
  unfold publishChange
  cases change.replacement with
  | none => exact OrderedMap.getElem?_erase' _ _ _
  | some replacement => exact OrderedMap.getElem?_insert' _ _ _ _

/-- The addresses a plugin's attachment holds. -/
def heldAddresses (committed : Committed) (plugin : PluginId) : List Handle :=
  committed[plugin]?.toList.flatMap fun attachment => attachment.replacement.addresses

theorem mem_ofList {addresses : List Handle} {address : Handle} :
    address ∈ ExtTreeSet.ofList addresses compare ↔ address ∈ addresses := by
  rw [ExtTreeSet.mem_ofList, List.contains_iff_mem]

/-- The retiring loop marks what is held and not retained. -/
theorem retireDropped_eq (committed : Committed) (change : Change) (identities : Identities) :
    retireDropped (.ofList change.addresses) committed[change.plugin]? identities =
      ((heldAddresses committed change.plugin).filter fun address =>
        address ∉ change.addresses).foldlM (setState .retired) identities := by
  have htest : ∀ address : Handle,
      (!(ExtTreeSet.ofList change.addresses compare).contains address) =
        decide (address ∉ change.addresses) := by
    intro address
    rw [Bool.eq_iff_iff, Bool.not_eq_true', decide_eq_true_iff, ← Bool.not_eq_true,
      ← ExtTreeSet.mem_iff_contains, mem_ofList]
  unfold retireDropped heldAddresses
  cases committed[change.plugin]? with
  | none => rfl
  | some old =>
      simp only [htest, Option.toList_some, List.flatMap_singleton]
      rw [List.foldlM_filter]

/-- Committing a change: its addresses stand, and those its plugin no longer holds retire. -/
theorem commitChange_eq (generation : UInt64) {identities : Identities} {committed : Committed}
    {change : Change}
    (hheld : ∀ address ∈ heldAddresses committed change.plugin,
      ∃ identity, identities[address]? = some identity)
    (hnamed : ∀ address ∈ change.addresses, ∃ identity, identities[address]? = some identity) :
    ∃ next, commitChange generation (identities, committed) change =
        .ok (next, publishChange generation committed change) ∧
      ∀ address : Handle, next[address]? =
        if address ∈ change.addresses then
          identities[address]?.map fun identity => { identity with state := .standing }
        else if address ∈ heldAddresses committed change.plugin then
          identities[address]?.map fun identity => { identity with state := .retired }
        else identities[address]? := by
  have hnamedStill : ∀ address ∈ (ExtTreeSet.ofList change.addresses compare).toList,
      address ∈ change.addresses := by
    intro address haddress
    rwa [ExtTreeSet.mem_toList, mem_ofList] at haddress
  obtain ⟨middle, hretired, hmiddle⟩ := foldlM_setState .retired
    ((heldAddresses committed change.plugin).filter fun address => address ∉ change.addresses)
    (fun address haddress => hheld address (List.mem_of_mem_filter haddress))
  have hmiddleRecorded : ∀ address ∈ (ExtTreeSet.ofList change.addresses compare).toList,
      ∃ identity, middle[address]? = some identity := by
    intro address haddress
    obtain ⟨identity, hidentity⟩ := hnamed address (hnamedStill address haddress)
    rw [hmiddle, hidentity]
    split
    · exact ⟨_, rfl⟩
    · exact ⟨_, rfl⟩
  obtain ⟨next, hstanding, hnext⟩ := foldlM_setState .standing _ hmiddleRecorded
  refine ⟨next, ?_, ?_⟩
  · rw [← retireDropped_eq] at hretired
    unfold commitChange
    simp only [hretired, hstanding, bind, Except.bind, pure, Except.pure]
  · intro address
    have hmem : address ∈ (ExtTreeSet.ofList change.addresses compare).toList ↔
        address ∈ change.addresses := by
      rw [ExtTreeSet.mem_toList, mem_ofList]
    rw [hnext, hmiddle]
    by_cases hin : address ∈ change.addresses
    · simp [hmem, hin]
    · by_cases hold : address ∈ heldAddresses committed change.plugin
      · simp [hmem, hin, hold]
      · simp [hmem, hin, hold]

end CellHistory

end Plasmosome.Journal
