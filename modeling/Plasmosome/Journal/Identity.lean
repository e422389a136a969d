import Plasmosome.Journal.HistoryLaws

/-!
# The identities of a history

Every recorded address belongs to one plugin and one effect for ever. It stands
exactly while that plugin's attachment holds it, and is introduced only by the
prepare that is still undecided.
-/

namespace Plasmosome.Journal

open Foundation Backend Std

/-- The attachment of this plugin holds the address by this effect. -/
def Holds (committed : Committed) (address : Handle) (plugin : PluginId)
    (effect : RecordedEffect) : Prop :=
  ∃ attachment, committed[plugin]? = some attachment ∧
    effect ∈ attachment.replacement.effects ∧ effect.address = some address

/-- The identities agree with the attachments and with the changes still to be decided. -/
structure Coherent (identities : Identities) (committed : Committed) (pending : List Change) :
    Prop where
  standing : ∀ address plugin effect,
    identities[address]? = some ⟨plugin, effect, .standing⟩ ↔
      Holds committed address plugin effect
  awaited : ∀ pair ∈ named pending, ∀ address, pair.2.address = some address →
    ∃ state, state ≠ .retired ∧ identities[address]? = some ⟨pair.1, pair.2, state⟩
  introduced : ∀ address plugin effect,
    identities[address]? = some ⟨plugin, effect, .introduced⟩ →
      (plugin, effect) ∈ named pending ∧ effect.address = some address
  distinct : (pending.map Change.plugin).Nodup

/-- No address is lost or given to another effect, and none comes back from retirement. -/
def Grows (before after : Identities) : Prop :=
  ∀ (address : Handle) identity, before[address]? = some identity →
    ∃ state, after[address]? = some { identity with state } ∧
      (identity.state = .retired → state = .retired)

namespace Grows

theorem refl (identities : Identities) : Grows identities identities :=
  fun _ identity hidentity => ⟨identity.state, hidentity, id⟩

theorem trans {first second third : Identities} (hfirst : Grows first second)
    (hsecond : Grows second third) : Grows first third := by
  intro address identity hidentity
  obtain ⟨state, hstate, hkept⟩ := hfirst address identity hidentity
  obtain ⟨later, hlater, hstill⟩ := hsecond address _ hstate
  exact ⟨later, hlater, fun hretired => hstill (hkept hretired)⟩

end Grows

theorem mem_addresses {change : Change} {address : Handle} :
    address ∈ change.addresses ↔
      ∃ effect ∈ change.effects, effect.address = some address :=
  List.mem_filterMap

open CellHistory

theorem mem_heldAddresses {committed : Committed} {plugin : PluginId} {address : Handle} :
    address ∈ heldAddresses committed plugin ↔
      ∃ effect, Holds committed address plugin effect := by
  unfold heldAddresses Holds
  cases committed[plugin]? with
  | none => simp
  | some attachment =>
      simp [Replacement.addresses, List.mem_filterMap]

/-- What is held once a change is published. -/
theorem holds_publishChange {generation : UInt64} {committed : Committed} {change : Change}
    {address : Handle} {plugin : PluginId} {effect : RecordedEffect} :
    Holds (publishChange generation committed change) address plugin effect ↔
      if change.plugin = plugin then effect ∈ change.effects ∧ effect.address = some address
      else Holds committed address plugin effect := by
  unfold Holds
  rw [publishChange_getElem?]
  by_cases hplugin : change.plugin = plugin
  · cases hreplacement : change.replacement with
    | none => simp [hplugin, hreplacement, Change.effects]
    | some replacement => simp [hplugin, hreplacement, Change.effects]
  · simp [hplugin]

namespace Coherent

variable {identities : Identities} {committed : Committed} {pending rest : List Change}
  {change : Change}

theorem empty : Coherent ∅ ∅ [] := by
  refine ⟨?_, ?_, ?_, List.nodup_nil⟩
  · intro address plugin effect
    simp [Holds]
  · intro pair hpair
    rw [named_nil] at hpair
    cases hpair
  · intro address plugin effect hintroduced
    simp at hintroduced

/-! ## Prepare -/

/-- A prepare introduces the addresses that are not recorded yet. -/
theorem prepare (hcoherent : Coherent identities committed []) {changes : List Change}
    (hdistinct : (changes.map Change.plugin).Nodup) (hnodup : (namedAddresses changes).Nodup)
    (hfree : ∀ pair ∈ named changes, ∀ address identity, pair.2.address = some address →
      identities[address]? = some identity → identity = ⟨pair.1, pair.2, .standing⟩) :
    Coherent (changes.foldl introduceChange identities) committed changes ∧
      Grows identities (changes.foldl introduceChange identities) := by
  have hlookup : ∀ address : Handle, (changes.foldl introduceChange identities)[address]? =
      identities[address]?.or
        (((named changes).find? fun pair => pair.2.address = some address).map fun pair =>
          ⟨pair.1, pair.2, .introduced⟩) := by
    intro address
    rw [foldl_introduceChange, foldl_introduce_getElem?]
  have hfind : ∀ pair ∈ named changes, ∀ address, pair.2.address = some address →
      ((named changes).find? fun pair => pair.2.address = some address) = some pair := by
    intro pair hpair address haddress
    cases hfound : (named changes).find? fun pair => pair.2.address = some address with
    | none =>
        have hmiss := List.find?_eq_none.mp hfound pair hpair
        exact absurd (decide_eq_true haddress) hmiss
    | some other =>
        have hother : other.2.address = some address := by simpa using List.find?_some hfound
        rw [eq_of_nodup_filterMap (filterMap_named changes ▸ hnodup)
          (List.mem_of_find?_eq_some hfound) hpair hother haddress]
  refine ⟨⟨?_, ?_, ?_, hdistinct⟩, ?_⟩
  · intro address plugin effect
    rw [hlookup, ← hcoherent.standing]
    cases hrecorded : identities[address]? with
    | some identity => simp
    | none =>
        -- An address recorded only now is introduced, not standing.
        simp
  · intro pair hpair address haddress
    rw [hlookup]
    cases hrecorded : identities[address]? with
    | some identity =>
        rw [hfree pair hpair address identity haddress hrecorded]
        exact ⟨.standing, by decide, rfl⟩
    | none =>
        rw [hfind pair hpair address haddress]
        exact ⟨.introduced, by decide, rfl⟩
  · intro address plugin effect hintroduced
    rw [hlookup] at hintroduced
    cases hrecorded : identities[address]? with
    | some identity =>
        rw [hrecorded] at hintroduced
        cases hintroduced
        exact absurd (hcoherent.introduced address plugin effect hrecorded).1 List.not_mem_nil
    | none =>
        rw [hrecorded, Option.none_or, Option.map_eq_some_iff] at hintroduced
        obtain ⟨pair, hfound, hpair⟩ := hintroduced
        cases hpair
        exact ⟨List.mem_of_find?_eq_some hfound, by simpa using List.find?_some hfound⟩
  · intro address identity hidentity
    refine ⟨identity.state, ?_, id⟩
    rw [hlookup, hidentity]
    rfl

/-! ## Commit -/

/-- A change still pending names only recorded addresses of its own plugin. -/
theorem recorded (hcoherent : Coherent identities committed (change :: rest))
    {effect : RecordedEffect} (heffect : effect ∈ change.effects) {address : Handle}
    (haddress : effect.address = some address) :
    ∃ state, state ≠ .retired ∧
      identities[address]? = some ⟨change.plugin, effect, state⟩ := by
  have hnamed : (change.plugin, effect) ∈ named (change :: rest) :=
    mem_named.mpr ⟨change, List.mem_cons_self, rfl, heffect⟩
  exact hcoherent.awaited _ hnamed address haddress

/-- A held address stands for its plugin. -/
theorem held (hcoherent : Coherent identities committed pending) {plugin : PluginId}
    {address : Handle} (hheld : address ∈ heldAddresses committed plugin) :
    ∃ effect, identities[address]? = some ⟨plugin, effect, .standing⟩ := by
  obtain ⟨effect, hholds⟩ := mem_heldAddresses.mp hheld
  exact ⟨effect, (hcoherent.standing address plugin effect).mpr hholds⟩

/-- Committing the first pending change leaves the others pending. -/
theorem commitChange (hcoherent : Coherent identities committed (change :: rest))
    (generation : UInt64) :
    ∃ next, CellHistory.commitChange generation (identities, committed) change =
        .ok (next, publishChange generation committed change) ∧
      Coherent next (publishChange generation committed change) rest ∧
      Grows identities next := by
  have hrecorded : ∀ address ∈ change.addresses,
      ∃ identity, identities[address]? = some identity := by
    intro address haddress
    obtain ⟨effect, heffect, hnames⟩ := mem_addresses.mp haddress
    obtain ⟨state, -, hidentity⟩ := hcoherent.recorded heffect hnames
    exact ⟨_, hidentity⟩
  have hstood : ∀ address ∈ heldAddresses committed change.plugin,
      ∃ identity, identities[address]? = some identity := by
    intro address haddress
    obtain ⟨effect, hidentity⟩ := hcoherent.held haddress
    exact ⟨_, hidentity⟩
  obtain ⟨next, hcommit, hlookup⟩ := commitChange_eq generation hstood hrecorded
  -- What belongs to another plugin is left alone.
  have hother : ∀ (address : Handle) identity, identities[address]? = some identity →
      identity.plugin ≠ change.plugin → next[address]? = some identity := by
    intro address identity hidentity hplugin
    rw [hlookup, if_neg, if_neg, hidentity]
    · intro hheld
      obtain ⟨effect, hstanding⟩ := hcoherent.held hheld
      rw [hidentity] at hstanding
      cases hstanding
      exact hplugin rfl
    · intro hin
      obtain ⟨effect, heffect, hnames⟩ := mem_addresses.mp hin
      obtain ⟨state, -, hnamed⟩ := hcoherent.recorded heffect hnames
      rw [hidentity] at hnamed
      cases hnamed
      exact hplugin rfl
  obtain ⟨hnew, hdistinct⟩ := List.nodup_cons.mp hcoherent.distinct
  refine ⟨next, hcommit, ⟨?_, ?_, ?_, hdistinct⟩, ?_⟩
  · intro address plugin effect
    rw [holds_publishChange]
    by_cases hplugin : change.plugin = plugin
    · subst hplugin
      rw [if_pos rfl]
      constructor
      · intro hstanding
        by_cases hin : address ∈ change.addresses
        · obtain ⟨named, heffect, hnames⟩ := mem_addresses.mp hin
          obtain ⟨state, -, hidentity⟩ := hcoherent.recorded heffect hnames
          rw [hlookup, if_pos hin, hidentity] at hstanding
          cases hstanding
          exact ⟨heffect, hnames⟩
        · by_cases hheld : address ∈ heldAddresses committed change.plugin
          · obtain ⟨old, hidentity⟩ := hcoherent.held hheld
            rw [hlookup, if_neg hin, if_pos hheld, hidentity] at hstanding
            cases hstanding
          · rw [hlookup, if_neg hin, if_neg hheld, hcoherent.standing] at hstanding
            exact absurd (mem_heldAddresses.mpr ⟨effect, hstanding⟩) hheld
      · rintro ⟨heffect, hnames⟩
        obtain ⟨state, -, hidentity⟩ := hcoherent.recorded heffect hnames
        rw [hlookup, if_pos (mem_addresses.mpr ⟨effect, heffect, hnames⟩), hidentity]
        rfl
    · rw [if_neg hplugin, ← hcoherent.standing]
      constructor
      · intro hstanding
        rw [hlookup] at hstanding
        split at hstanding
        next hin =>
          obtain ⟨named, heffect, hnames⟩ := mem_addresses.mp hin
          obtain ⟨state, -, hidentity⟩ := hcoherent.recorded heffect hnames
          rw [hidentity] at hstanding
          cases hstanding
          exact absurd rfl hplugin
        next =>
          split at hstanding
          next hheld =>
            obtain ⟨old, hidentity⟩ := hcoherent.held hheld
            rw [hidentity] at hstanding
            cases hstanding
          next => exact hstanding
      · intro hstanding
        exact hother address _ hstanding fun hsame => hplugin hsame.symm
  · intro pair hpair address haddress
    have hlater : pair ∈ named (change :: rest) := by
      rw [named_cons]
      exact List.mem_append_right _ hpair
    obtain ⟨state, hstate, hidentity⟩ := hcoherent.awaited pair hlater address haddress
    refine ⟨state, hstate, hother address _ hidentity ?_⟩
    intro hsame
    obtain ⟨other, hmem, hplugin, -⟩ := mem_named.mp hpair
    exact hnew (List.mem_map.mpr ⟨other, hmem, hplugin.trans hsame⟩)
  · intro address plugin effect hintroduced
    rw [hlookup] at hintroduced
    split at hintroduced
    next hin =>
      obtain ⟨identity, hidentity⟩ := hrecorded address hin
      rw [hidentity] at hintroduced
      cases hintroduced
    next hout =>
      split at hintroduced
      next hheld =>
        obtain ⟨old, hidentity⟩ := hcoherent.held hheld
        rw [hidentity] at hintroduced
        cases hintroduced
      next =>
        obtain ⟨hnamed, hnames⟩ := hcoherent.introduced address plugin effect hintroduced
        refine ⟨?_, hnames⟩
        rw [named_cons] at hnamed
        rcases List.mem_append.mp hnamed with hfirst | hlater
        · obtain ⟨_, heffect, hpair⟩ := List.mem_map.mp hfirst
          cases hpair
          exact absurd (mem_addresses.mpr ⟨effect, heffect, hnames⟩) hout
        · exact hlater
  · intro address identity hidentity
    rw [hlookup]
    split
    next hin =>
      obtain ⟨named, heffect, hnames⟩ := mem_addresses.mp hin
      obtain ⟨state, hstate, hnamed⟩ := hcoherent.recorded heffect hnames
      rw [hidentity]
      rw [hidentity] at hnamed
      cases hnamed
      exact ⟨.standing, rfl, fun hretired => absurd hretired hstate⟩
    next =>
      split
      next =>
        rw [hidentity]
        exact ⟨.retired, rfl, fun _ => rfl⟩
      next => exact ⟨identity.state, hidentity, id⟩

/-- Committing every pending change leaves none, and publishes them in order. -/
theorem commit (hcoherent : Coherent identities committed pending) (generation : UInt64) :
    ∃ next, pending.foldlM (CellHistory.commitChange generation) (identities, committed) =
        .ok (next, pending.foldl (publishChange generation) committed) ∧
      Coherent next (pending.foldl (publishChange generation) committed) [] ∧
      Grows identities next := by
  induction pending generalizing identities committed with
  | nil => exact ⟨identities, rfl, hcoherent, .refl _⟩
  | cons change rest ih =>
      obtain ⟨middle, hfirst, hmiddle, hgrows⟩ := hcoherent.commitChange generation
      obtain ⟨next, hrest, hnext, hgrowsOn⟩ := ih hmiddle
      refine ⟨next, ?_, hnext, hgrows.trans hgrowsOn⟩
      rw [List.foldlM_cons, hfirst]
      exact hrest

/-! ## Abort -/

/-- An abort retires what was introduced, so nothing is pending. -/
theorem abort (hcoherent : Coherent identities committed pending) :
    Coherent (identities.map fun _ identity => abandon identity) committed [] ∧
      Grows identities (identities.map fun _ identity => abandon identity) := by
  have hlookup : ∀ address : Handle,
      (identities.map fun _ identity => abandon identity)[address]? =
        identities[address]?.map abandon := by
    intro address
    rw [ExtTreeMap.getElem?_map]
  refine ⟨⟨?_, ?_, ?_, List.nodup_nil⟩, ?_⟩
  · intro address plugin effect
    rw [hlookup, ← hcoherent.standing]
    cases identities[address]? with
    | none => simp
    | some identity =>
        obtain ⟨_, _, state⟩ := identity
        cases state <;> simp [abandon]
  · intro pair hpair
    rw [named_nil] at hpair
    cases hpair
  · intro address plugin effect hintroduced
    rw [hlookup, Option.map_eq_some_iff] at hintroduced
    obtain ⟨⟨_, _, state⟩, -, habandoned⟩ := hintroduced
    cases state <;> simp [abandon] at habandoned
  · intro address identity hidentity
    rw [hlookup, hidentity]
    obtain ⟨plugin, effect, state⟩ := identity
    cases state with
    | standing => exact ⟨.standing, rfl, id⟩
    | introduced => exact ⟨.retired, rfl, fun _ => rfl⟩
    | retired => exact ⟨.retired, rfl, id⟩

end Coherent

/-! ## Every history -/

namespace CellHistory

/-- The changes of the open transaction while it is undecided. -/
def pending (history : CellHistory) : List Change :=
  match history.openTransaction with
  | some ⟨_, prepare, none⟩ => prepare.changes
  | _ => []

/-- The identities of a history agree with its attachments and its open transaction. -/
def Sound (history : CellHistory) : Prop :=
  Coherent history.identities history.committed history.pending

variable {history : CellHistory}

theorem sound_new (cell : CellId) : (new cell).Sound := Coherent.empty

/-- Applying a commit publishes the changes of the open prepare, in order. -/
theorem apply_commit (hsound : history.Sound) {generation : UInt64} {prepare : Prepare}
    (hopen : history.openTransaction = some ⟨generation, prepare, none⟩) :
    ∃ identities, history.apply ⟨generation, .commit⟩ = .ok { history with
        identities
        committed := prepare.changes.foldl (publishChange generation) history.committed
        openTransaction := some ⟨generation, prepare, some .commit⟩ } ∧
      Coherent identities
        (prepare.changes.foldl (publishChange generation) history.committed) [] ∧
      Grows history.identities identities := by
  have hchanges : history.pending = prepare.changes := by
    rw [pending, hopen]
  have hcoherent : Coherent history.identities history.committed prepare.changes :=
    hchanges ▸ hsound
  obtain ⟨next, hcommit, hnext, hgrows⟩ := hcoherent.commit generation
  refine ⟨next, ?_, hnext, hgrows⟩
  simp only [apply, hopen, hcommit, bind, Except.bind, pure, Except.pure]

/-- Applying an accepted record never panics and keeps the identities sound. -/
theorem apply_sound (hsound : history.Sound) {record : CellJournalRecord}
    (haccepts : history.Accepts record) :
    ∃ next, history.apply record = .ok next ∧ next.Sound ∧
      Grows history.identities next.identities := by
  cases haccepts with
  | prepare generation prepare hclosed _ hidentities =>
      have hnone : history.pending = [] := by
        rw [pending, hclosed]
      obtain ⟨hnodup, hfree⟩ := checkIdentities_eq_ok hidentities
      have hcoherent : Coherent history.identities history.committed [] := hnone ▸ hsound
      obtain ⟨hnext, hgrows⟩ := hcoherent.prepare prepare.distinct hnodup hfree
      exact ⟨_, rfl, hnext, hgrows⟩
  | commit generation prepare hopen =>
      obtain ⟨identities, happly, hnext, hgrows⟩ := apply_commit hsound hopen
      exact ⟨_, happly, hnext, hgrows⟩
  | abort generation prepare hopen =>
      obtain ⟨hnext, hgrows⟩ := Coherent.abort hsound
      refine ⟨{ history with
        identities := history.identities.map fun _ identity => abandon identity
        openTransaction := some ⟨generation, prepare, some .abort⟩ }, ?_, hnext, hgrows⟩
      simp only [apply, hopen]
  | finish generation prepare decision hopen =>
      have hnone : history.pending = [] := by
        rw [pending, hopen]
      have hcoherent : Coherent history.identities history.committed [] := hnone ▸ hsound
      exact ⟨_, rfl, hcoherent, .refl _⟩

/-- Admitting any record never panics and keeps the identities sound. -/
theorem admitRecord_sound (hsound : history.Sound) (record : CellJournalRecord) :
    (∃ reply, (history.admitRecord record).1 = .ok reply) ∧
      (history.admitRecord record).2.Sound ∧
      Grows history.identities (history.admitRecord record).2.identities := by
  unfold admitRecord
  cases hcheck : history.check record with
  | error error => exact ⟨⟨_, rfl⟩, hsound, .refl _⟩
  | ok _ =>
      obtain ⟨next, happly, hnext, hgrows⟩ := apply_sound hsound (check_eq_ok.mp hcheck).2
      simp only [happly]
      exact ⟨⟨_, rfl⟩, hnext, hgrows⟩

theorem final_sound (cell : CellId) (records : List CellJournalRecord) :
    (machine.final (new cell) records).Sound := by
  have hstep : ∀ history record, history.Sound → (machine.step history record).2.Sound :=
    fun _ record hsound => (admitRecord_sound hsound record).2.1
  exact machine.final_invariant hstep (sound_new cell) records

/-- The identities of every reachable history: who stands, who is introduced, that no address
has two holders, and that further records only move identities on. -/
theorem identities_agree (cell : CellId) (records : List CellJournalRecord) :
    let history := machine.final (new cell) records
    -- An address stands exactly while its recorded plugin holds it by its recorded effect.
    (∀ (address : Handle) identity, history.identities[address]? = some identity →
      (identity.state = .standing ↔
        Holds history.committed address identity.plugin identity.effect)) ∧
    (∀ address plugin effect, Holds history.committed address plugin effect →
      history.identities[address]? = some ⟨plugin, effect, .standing⟩) ∧
    (∀ (address : Handle) identity, history.identities[address]? = some identity →
      identity.state = .introduced →
      ∃ opened, history.openTransaction = some opened ∧ opened.decision = none ∧
        ∃ change ∈ opened.prepare.changes, change.plugin = identity.plugin ∧
          identity.effect ∈ change.effects ∧ identity.effect.address = some address) ∧
    (∀ (plugin other : PluginId) attachment shared, history.committed[plugin]? = some attachment →
      history.committed[other]? = some shared →
      ∀ address ∈ attachment.replacement.addresses, address ∈ shared.replacement.addresses →
        plugin = other) ∧
    ∀ record,
      -- Neither `expect` finds nothing.
      (∃ reply, (history.admitRecord record).1 = .ok reply) ∧
      ∀ (address : Handle) identity, history.identities[address]? = some identity →
        ∃ kept, (history.admitRecord record).2.identities[address]? = some kept ∧
          kept.plugin = identity.plugin ∧ kept.effect = identity.effect ∧
          (identity.state = .retired → kept.state = .retired) := by
  intro history
  have hsound : history.Sound := final_sound cell records
  have hholds : ∀ address plugin effect, Holds history.committed address plugin effect →
      history.identities[address]? = some ⟨plugin, effect, .standing⟩ :=
    fun address plugin effect => (hsound.standing address plugin effect).mpr
  refine ⟨?_, hholds, ?_, ?_, ?_⟩
  · intro address identity hidentity
    obtain ⟨plugin, effect, state⟩ := identity
    rw [← hsound.standing, hidentity]
    simp
  · intro address identity hidentity hintroduced
    obtain ⟨plugin, effect, state⟩ := identity
    cases hintroduced
    obtain ⟨hnamed, haddress⟩ := hsound.introduced address plugin effect hidentity
    obtain ⟨change, hchange, hplugin, heffect⟩ := mem_named.mp hnamed
    unfold pending at hchange
    split at hchange
    next generation prepare hopen =>
      exact ⟨_, hopen, rfl, change, hchange, hplugin, heffect, haddress⟩
    · cases hchange
  · intro plugin other attachment shared hattachment hshared address haddress hagain
    obtain ⟨effect, heffect, hnames⟩ := List.mem_filterMap.mp haddress
    obtain ⟨effect', heffect', hnames'⟩ := List.mem_filterMap.mp hagain
    have hfirst := hholds address plugin effect ⟨attachment, hattachment, heffect, hnames⟩
    have hsecond := hholds address other effect' ⟨shared, hshared, heffect', hnames'⟩
    rw [hfirst] at hsecond
    cases hsecond
    rfl
  · intro record
    obtain ⟨hreply, -, hgrows⟩ := admitRecord_sound hsound record
    refine ⟨hreply, ?_⟩
    intro address identity hidentity
    obtain ⟨state, hkept, hretired⟩ := hgrows address identity hidentity
    exact ⟨_, hkept, rfl, rfl, hretired⟩

end CellHistory

end Plasmosome.Journal
