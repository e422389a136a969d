import Plasmosome.Backend.Codec

/-!
# Accounts are canonical

An accepted account does not depend on the order of its rows, is written, and reads
back as itself. No reading yields an account that would be refused.
-/

namespace Plasmosome.Backend

open Foundation Std
open Serde (Value Codec)

/-! ## What is written -/

theorem passes_iff {α ε : Type} {check : α → Except ε Unit} {value : α} :
    passes check value = true ↔ check value = .ok () := by
  unfold passes
  cases check value <;> simp [Except.isOk, Except.toBool]

theorem SessionFileRecipe.codec_valid {recipe : SessionFileRecipe}
    (hvalid : recipe.validate = .ok ()) : SessionFileRecipe.codec.Valid recipe :=
  ⟨passes_iff.mpr hvalid, fun _ _ => trivial, trivial, trivial, trivial⟩

theorem UdsRecipe.codec_valid {recipe : UdsRecipe} (hvalid : recipe.validate = .ok ()) :
    UdsRecipe.codec.Valid recipe :=
  ⟨passes_iff.mpr hvalid, trivial, trivial, trivial⟩

theorem ProxyRecipe.codec_valid {recipe : ProxyRecipe} (hvalid : recipe.validate = .ok ()) :
    ProxyRecipe.codec.Valid recipe :=
  ⟨passes_iff.mpr hvalid, trivial, trivial, trivial, trivial, trivial⟩

theorem MountRecipe.codec_valid (recipe : MountRecipe) : MountRecipe.codec.Valid recipe :=
  ⟨rfl, trivial, trivial⟩

theorem BrokerLaunch.codec_valid {launch : BrokerLaunch} (hvalid : launch.validate = .ok ()) :
    BrokerLaunch.codec.Valid launch :=
  ⟨passes_iff.mpr hvalid, fun _ _ => trivial, trivial, trivial, trivial⟩

theorem CellOwner.codec_valid (owner : CellOwner) : CellOwner.codec.Valid owner :=
  ⟨trivial, trivial, trivial⟩

theorem Capability.codec_valid {capability : Capability} (hvalid : capability.validate = .ok ()) :
    Capability.codec.Valid capability := by
  refine ⟨passes_iff.mpr hvalid, ?_⟩
  intro codec hcodec
  cases capability with
  | sessionFile path recipe =>
      rw [validate, sessionFileRules, check_bind_eq_ok] at hvalid
      cases hcodec
      exact ⟨(path, recipe, ()), rfl, trivial, SessionFileRecipe.codec_valid hvalid.2, trivial⟩
  | udsSocket path recipe =>
      rw [validate, udsSocketRules, check_bind_eq_ok] at hvalid
      cases hcodec
      exact ⟨(path, recipe, ()), rfl, trivial, UdsRecipe.codec_valid hvalid.2, trivial⟩
  | proxyMap host route recipe =>
      rw [validate, proxyMapRules, check_bind_eq_ok, check_bind_eq_ok] at hvalid
      cases hcodec
      exact ⟨(host, route, recipe, ()), rfl, trivial, trivial, ProxyRecipe.codec_valid hvalid.2.2,
        trivial⟩
  | broker name launch =>
      rw [validate, brokerRules, check_bind_eq_ok] at hvalid
      cases hcodec
      exact ⟨(name, launch, ()), rfl, trivial, BrokerLaunch.codec_valid hvalid.2, trivial⟩
  | mount source target recipe =>
      cases hcodec
      exact ⟨(source, target, recipe, ()), rfl, trivial, trivial, recipe.codec_valid, trivial⟩

theorem UniverseOp.codec_valid {operation : UniverseOp} (hvalid : operation.validate = .ok ()) :
    UniverseOp.codec.Valid operation := by
  refine ⟨passes_iff.mpr hvalid, ?_⟩
  intro codec hcodec
  cases operation with
  | writeSessionFile id path recipe owner =>
      rw [validate, sessionFileRules, check_bind_eq_ok] at hvalid
      cases hcodec
      exact ⟨(id, path, recipe, owner, ()), rfl, trivial, trivial,
        SessionFileRecipe.codec_valid hvalid.2, owner.codec_valid, trivial⟩
  | bindUds id path recipe owner =>
      rw [validate, udsSocketRules, check_bind_eq_ok] at hvalid
      cases hcodec
      exact ⟨(id, path, recipe, owner, ()), rfl, trivial, trivial,
        UdsRecipe.codec_valid hvalid.2, owner.codec_valid, trivial⟩
  | setProxyMap id host route recipe owner =>
      rw [validate, proxyMapRules, check_bind_eq_ok, check_bind_eq_ok] at hvalid
      cases hcodec
      exact ⟨(id, host, route, recipe, owner, ()), rfl, trivial, trivial, trivial,
        ProxyRecipe.codec_valid hvalid.2.2, owner.codec_valid, trivial⟩
  | spawnBroker id name launch owner =>
      rw [validate, brokerRules, check_bind_eq_ok] at hvalid
      cases hcodec
      exact ⟨(id, name, launch, owner, ()), rfl, trivial, trivial,
        BrokerLaunch.codec_valid hvalid.2, owner.codec_valid, trivial⟩
  | addMount id source target recipe owner =>
      cases hcodec
      exact ⟨(id, source, target, recipe, owner, ()), rfl, trivial, trivial, trivial,
        recipe.codec_valid, owner.codec_valid, trivial⟩

theorem OsObject.codec_valid {object : OsObject} (hvalid : object.capability.validate = .ok ()) :
    OsObject.codec.Valid object :=
  ⟨trivial, object.owner.codec_valid, Capability.codec_valid hvalid, trivial⟩

theorem LedgerEntry.codec_valid {entry : LedgerEntry} (hvalid : entry.capability.validate = .ok ())
    (hclass : entry.handle.class = entry.capability.class) : LedgerEntry.codec.Valid entry :=
  ⟨decide_eq_true hclass, ⟨trivial, trivial, trivial⟩, entry.owner.codec_valid,
    Capability.codec_valid hvalid, trivial, trivial⟩

theorem IncompleteEffect.codec_valid {effect : IncompleteEffect}
    (hvalid : effect.operation.validate = .ok ()) : IncompleteEffect.codec.Valid effect :=
  ⟨UniverseOp.codec_valid hvalid, trivial⟩

/-! ## The rows at an address -/

/-- The owner and capability of every standing or incomplete row at an address. -/
def heldRows (state : OsState) (incomplete : List IncompleteEffect) (handle : Handle) :
    List (CellOwner × Capability) :=
  (state.values.filter fun object => object.handle = handle).map
      (fun object => (object.owner, object.capability)) ++
    (incomplete.filter fun effect => effect.handle = handle).map fun effect =>
      (effect.operation.owner, effect.operation.capability)

theorem backed_iff {state : OsState} {incomplete : List IncompleteEffect}
    (hnodup : (incomplete.map IncompleteEffect.handle).Nodup)
    (hdisjoint : ∀ effect ∈ incomplete, state.objects[effect.handle]? = none) {handle : Handle}
    {owner : CellOwner} {capability : Capability} :
    ((∃ object, state.objects[handle]? = some object ∧
        object.owner = owner ∧ object.capability = capability) ∨
      ∃ effect ∈ incomplete, effect.handle = handle ∧
        effect.operation.owner = owner ∧ effect.operation.capability = capability) ↔
      heldRows state incomplete handle = [(owner, capability)] := by
  have hstanding := state.addressed.filter_values handle
  have hincomplete := filter_key_eq_toList_find? hnodup handle
  rw [heldRows, OsState.values, hstanding, hincomplete]
  cases hat : state.objects[handle]? with
  | some object =>
      have hnone : (incomplete.find? fun effect => effect.handle = handle) = none := by
        rw [List.find?_eq_none]
        intro effect heffect hsame
        have hvacant := hdisjoint effect heffect
        rw [of_decide_eq_true hsame, hat] at hvacant
        cases hvacant
      have hother : ¬∃ effect ∈ incomplete, effect.handle = handle ∧
          effect.operation.owner = owner ∧ effect.operation.capability = capability := by
        rintro ⟨effect, heffect, hhandle, -⟩
        exact List.find?_eq_none.mp hnone effect heffect (decide_eq_true hhandle)
      rw [or_iff_left hother, hnone]
      simp
  | none =>
      have hother : ¬∃ object, (none : Option OsObject) = some object ∧
          object.owner = owner ∧ object.capability = capability := by
        rintro ⟨object, ⟨⟩, -⟩
      rw [or_iff_right hother]
      cases hfind : incomplete.find? fun effect => effect.handle = handle with
      | none =>
          have hmiss := List.find?_eq_none.mp hfind
          simp only [Option.toList_none, List.map_nil, List.append_nil]
          constructor
          · rintro ⟨effect, heffect, hhandle, -⟩
            exact absurd (decide_eq_true hhandle) (hmiss effect heffect)
          · rintro ⟨⟩
      | some effect =>
          have hmem := List.mem_of_find?_eq_some hfind
          have hfound := List.find?_some hfind
          have hhandle : effect.handle = handle := of_decide_eq_true hfound
          simp only [Option.toList_none, Option.toList_some, List.map_nil, List.map_cons,
            List.nil_append, List.cons.injEq, and_true, Prod.mk.injEq]
          constructor
          · rintro ⟨other, hother, hsame, howner, hcapability⟩
            cases List.inj_on_of_nodup_map hnodup hmem hother (hhandle.trans hsame.symm)
            exact ⟨howner, hcapability⟩
          · rintro ⟨howner, hcapability⟩
            exact ⟨effect, hmem, hhandle, howner, hcapability⟩

namespace EnforcementSnapshot

variable {state : OsState} {grants : List LedgerEntry} {incomplete : List IncompleteEffect}
  {snapshot : EnforcementSnapshot}

theorem isOk_new : (∃ snapshot, new state grants incomplete = .ok snapshot) ↔
    Accepts state grants incomplete := by
  constructor
  · rintro ⟨snapshot, hnew⟩
    exact (new_eq_ok_iff.mp hnew).1
  · intro haccepts
    exact ⟨_, new_eq_ok_iff.mpr ⟨haccepts, rfl⟩⟩

/-- An accepted account is one a second check accepts unchanged. -/
theorem new_of_new (hnew : new state grants incomplete = .ok snapshot) :
    new snapshot.state snapshot.grants snapshot.incomplete = .ok snapshot := by
  obtain ⟨haccepts, rfl⟩ := new_eq_ok_iff.mp hnew
  have hgrants : (sortByKey LedgerEntry.handle grants).Perm grants := sortByKey_perm grants
  have hincomplete : (sortByKey IncompleteEffect.handle incomplete).Perm incomplete :=
    sortByKey_perm incomplete
  refine new_eq_ok_iff.mpr ⟨haccepts.of_perm hgrants hincomplete, ?_⟩
  rw [sortByKey_eq_of_perm hgrants ((hgrants.map _).nodup_iff.mpr haccepts.issued_nodup),
    sortByKey_eq_of_perm hincomplete ((hincomplete.map _).nodup_iff.mpr haccepts.incomplete_nodup)]

theorem new_of_perm {grants' : List LedgerEntry} {incomplete' : List IncompleteEffect}
    (hgrants : grants'.Perm grants) (hincomplete : incomplete'.Perm incomplete)
    (hnew : new state grants incomplete = .ok snapshot) :
    new state grants' incomplete' = .ok snapshot := by
  obtain ⟨haccepts, rfl⟩ := new_eq_ok_iff.mp hnew
  refine new_eq_ok_iff.mpr ⟨haccepts.of_perm hgrants hincomplete, ?_⟩
  rw [sortByKey_eq_of_perm hgrants ((hgrants.map _).nodup_iff.mpr haccepts.issued_nodup),
    sortByKey_eq_of_perm hincomplete ((hincomplete.map _).nodup_iff.mpr haccepts.incomplete_nodup)]

theorem wire_valid (haccepts : Accepts state grants incomplete) :
    wire.Valid (state, grants, incomplete, ()) := by
  refine ⟨⟨fun object hobject => ?_, trivial⟩, fun entry hentry => ?_, fun effect heffect => ?_,
    trivial⟩
  · exact OsObject.codec_valid (haccepts.standing_valid object hobject)
  · exact LedgerEntry.codec_valid (haccepts.issued_valid entry hentry).1
      (haccepts.issued_valid entry hentry).2
  · exact IncompleteEffect.codec_valid (haccepts.incomplete_valid effect heffect)

theorem decode_encode (hnew : new state grants incomplete = .ok snapshot) :
    ∃ value, encode snapshot = some value ∧ decode value = some snapshot := by
  have hagain := new_of_new hnew
  obtain ⟨value, hencode, hdecode⟩ := wire.reads _ (wire_valid (new_eq_ok_iff.mp hagain).1)
  refine ⟨value, hencode, ?_⟩
  rw [decode, hdecode]
  simp [hagain, Except.toOption]

theorem new_of_decode {value : Value} (hdecode : decode value = some snapshot) :
    new snapshot.state snapshot.grants snapshot.incomplete = .ok snapshot := by
  rw [decode] at hdecode
  obtain ⟨⟨state, grants, incomplete, _⟩, -, hnew⟩ := Option.bind_eq_some_iff.mp hdecode
  dsimp only at hnew
  cases haccepted : new state grants incomplete with
  | error _ =>
      rw [haccepted] at hnew
      cases hnew
  | ok accepted =>
      rw [haccepted] at hnew
      cases hnew
      exact new_of_new haccepted

/-- An account is accepted exactly when every row is valid, no address is repeated and each record
agrees with the one row at its address. What is accepted does not depend on the order of the rows,
is written and reads back as itself, and nothing is read that would be refused. -/
theorem snapshot_is_canonical :
    (∀ state grants incomplete, (∃ snapshot, new state grants incomplete = .ok snapshot) ↔
      (∀ object ∈ state.values, object.capability.validate = .ok ()) ∧
      (∀ entry ∈ grants, entry.capability.validate = .ok () ∧
        entry.handle.class = entry.capability.class) ∧
      (∀ effect ∈ incomplete, effect.operation.validate = .ok ()) ∧
      (incomplete.map IncompleteEffect.handle).Nodup ∧
      (∀ effect ∈ incomplete, state.objects[effect.handle]? = none) ∧
      (grants.map LedgerEntry.handle).Nodup ∧
      ∀ entry ∈ grants,
        heldRows state incomplete entry.handle = [(entry.owner, entry.capability)]) ∧
    (∀ state grants incomplete grants' incomplete' snapshot,
      new state grants incomplete = .ok snapshot → grants'.Perm grants →
      incomplete'.Perm incomplete → new state grants' incomplete' = .ok snapshot) ∧
    (∀ state grants incomplete snapshot, new state grants incomplete = .ok snapshot →
      ∃ value, encode snapshot = some value ∧ decode value = some snapshot) ∧
    (∀ value snapshot, decode value = some snapshot →
      new snapshot.state snapshot.grants snapshot.incomplete = .ok snapshot) := by
  refine ⟨fun state grants incomplete => ?_,
    fun state grants incomplete grants' incomplete' snapshot hnew hgrants hincomplete =>
      new_of_perm hgrants hincomplete hnew,
    fun state grants incomplete snapshot => decode_encode, fun value snapshot => new_of_decode⟩
  rw [isOk_new]
  constructor
  · intro haccepts
    refine ⟨haccepts.standing_valid, haccepts.issued_valid, haccepts.incomplete_valid,
      haccepts.incomplete_nodup, haccepts.disjoint, haccepts.issued_nodup, fun entry hentry => ?_⟩
    exact (backed_iff haccepts.incomplete_nodup haccepts.disjoint).mp (haccepts.backed entry hentry)
  · rintro ⟨hstanding, hissued, hincomplete, hnodup, hdisjoint, hrecords, hrows⟩
    exact
      { standing_valid := hstanding
        issued_valid := hissued
        incomplete_valid := hincomplete
        incomplete_nodup := hnodup
        disjoint := hdisjoint
        issued_nodup := hrecords
        backed := fun entry hentry => (backed_iff hnodup hdisjoint).mpr (hrows entry hentry) }

end EnforcementSnapshot

end Plasmosome.Backend
