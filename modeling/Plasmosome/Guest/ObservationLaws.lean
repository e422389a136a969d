import Plasmosome.Foundation.Reordering
import Plasmosome.Guest.Observation

/-!
# What an accepted observation holds

Validation accepts an observation by what its inventories hold: the order in
which the guest lists them changes nothing but which fault comes first.
-/

namespace Plasmosome.Guest

open Foundation Backend

/-! ## One object and one stream -/

/-- The bindings of one object: some, each of another grant. -/
structure GuestProjection.Bound (object : GuestProjection) : Prop where
  some : object.bindings ≠ []
  grants : (object.bindings.map GuestBinding.grant).Nodup

/-- The ends of one stream: one or two, each on another side, and named. -/
structure SocketStreamProjection.Ended (stream : SocketStreamProjection) : Prop where
  some : stream.ends ≠ []
  two : stream.ends.length ≤ 2
  sides : (stream.ends.map SocketStreamEnd.side).Nodup
  named : ∀ «end» ∈ stream.ends, «end».id ≠ ""

theorem map_unit_eq_ok {ε α : Type} {result : Except ε α} :
    (result.map fun _ => ()) = .ok () ↔ ∃ after, result = .ok after := by
  cases result with
  | error _ => simp [Except.map]
  | ok after => simp [Except.map]

/-- The bindings of an object pass when it is bound. -/
theorem checkBindings_eq_ok {kind : ProjectionKind} {object : GuestProjection} :
    checkBindings kind object = .ok () ↔ object.Bound := by
  have hscan := (scan_enter (ε := GuestObservationFault)
    (GuestObservationFault.duplicateBinding kind object.id)).comap GuestBinding.grant
  have hrun := hscan.run_ok_iff [] (fun _ => List.not_mem_nil) object.bindings
  rw [← List.map_eq_flatMap] at hrun
  unfold checkBindings
  split
  next hempty => exact ⟨nofun, fun hbound => absurd (List.isEmpty_iff.mp hempty) hbound.some⟩
  next hsome =>
    rw [map_unit_eq_ok, hrun]
    rw [List.isEmpty_iff] at hsome
    exact ⟨fun hloop => ⟨hsome, hloop.2⟩, fun hbound => ⟨fun _ _ => trivial, hbound.grants⟩⟩

namespace Met

/-- The keys a validation has met: an object of a kind, or a stream end. -/
def Holds (met : Met) : (ProjectionKind × String) ⊕ String → Prop :=
  Sum.elim (fun key => key ∈ met.objects) fun «end» => «end» ∈ met.ends

theorem scan_object : Scan Holds
    (fun met (key : ProjectionKind × String) => met.object key.1 key.2)
    (fun key => [.inl key]) fun _ => True := by
  have henter := scan_enter (ε := GuestObservationFault)
    fun key : ProjectionKind × String => .duplicateObject key.1 key.2
  refine henter.part Met.objects (fun met objects => { met with objects }) Sum.inl_injective
    (fun _ _ => Iff.rfl) (fun _ _ _ => Iff.rfl) ?_
  rintro met objects (key | «end») hother
  · exact absurd rfl (hother key)
  · rfl

end Met

namespace EndsMet

def Holds (met : EndsMet) : StreamSide ⊕ String → Prop :=
  Sum.elim (fun side => side ∈ met.1) fun «end» => «end» ∈ met.2

theorem scan_meetSide (id : String) : Scan Holds (meetSide id) (fun «end» => [.inl «end».side])
    fun _ => True := by
  have henter := (scan_enter (GuestObservationFault.duplicateStreamSide id)).comap
    SocketStreamEnd.side
  refine henter.part Prod.fst (fun met sides => (sides, met.2)) Sum.inl_injective
    (fun _ _ => Iff.rfl) (fun _ _ _ => Iff.rfl) ?_
  rintro met sides (side | «end») hother
  · exact absurd rfl (hother side)
  · rfl

theorem scan_meetEndId : Scan Holds meetEndId (fun «end» => [.inr «end».id])
    fun _ => True := by
  have henter := (scan_enter GuestObservationFault.duplicateStreamEnd).comap SocketStreamEnd.id
  refine henter.part Prod.snd (fun met ends => (met.1, ends)) Sum.inr_injective
    (fun _ _ => Iff.rfl) (fun _ _ _ => Iff.rfl) ?_
  rintro met ends (side | «end») hother
  · rfl
  · exact absurd rfl (hother «end»)

theorem scan_meetEnd (id : String) : Scan Holds (meetEnd id)
    (fun «end» => [.inl «end».side, .inr «end».id]) fun «end» => «end».id ≠ "" := by
  have hnamed : ∀ «end» : SocketStreamEnd, checkEndId id «end» = .ok () ↔ «end».id ≠ "" := by
    intro «end»
    rw [checkEndId, refuse_unless_eq_ok, String.isEmpty_iff]
  refine ((scan_meetSide id).andThen (scan_meetEndId.guarded hnamed)).congr (fun _ => rfl) ?_
  intro «end»
  simp

end EndsMet

/-! ## One projection -/

/-- A stream has one end or two. -/
theorem checkEndCount_eq_ok {stream : SocketStreamProjection} :
    checkEndCount stream = .ok () ↔ stream.ends ≠ [] ∧ stream.ends.length ≤ 2 := by
  rw [checkEndCount, refuse_unless_eq_ok, Bool.or_eq_true, not_or, List.isEmpty_iff,
    decide_eq_true_iff, Nat.not_lt]

/-- The ends of a stream are met in all streams, its sides in it alone. -/
theorem scan_meetEnds : Scan Met.Holds meetEnds
    (fun stream => (stream.ends.map SocketStreamEnd.id).map .inr)
    fun stream => (stream.ends.map SocketStreamEnd.side).Nodup ∧
      ∀ «end» ∈ stream.ends, «end».id ≠ "" := by
  refine Scan.pointwise fun stream => ?_
  have hends := ((EndsMet.scan_meetEnd stream.id).foldlM_at stream.ends).local_left []
    fun _ => List.not_mem_nil
  have hkept : ∀ (met : Met) (ends : List String) (other : (ProjectionKind × String) ⊕ String),
      (∀ «end», Sum.inr «end» ≠ other) → (Met.Holds { met with ends } other ↔ met.Holds other) := by
    rintro met ends (key | «end») hother
    · rfl
    · exact absurd rfl (hother «end»)
  have hmet := hends.part Met.ends (fun met ends => { met with ends }) Sum.inr_injective
    (fun _ _ => Iff.rfl) (fun _ _ _ => Iff.rfl) hkept
  have hright : (stream.ends.flatMap fun «end» : SocketStreamEnd =>
      [Sum.inl «end».side, Sum.inr «end».id]).filterMap Sum.getRight? =
        stream.ends.map SocketStreamEnd.id := by
    rw [List.filterMap_flatMap, List.map_eq_flatMap]
    rfl
  have hleft : (stream.ends.flatMap fun «end» : SocketStreamEnd =>
      [Sum.inl «end».side, Sum.inr «end».id]).filterMap Sum.getLeft? =
        stream.ends.map SocketStreamEnd.side := by
    rw [List.filterMap_flatMap, List.map_eq_flatMap]
    rfl
  refine hmet.congr ?_ ?_
  · intro _
    rw [hright]
  · intro _
    rw [hleft, and_comm]

/-- The keys of a projection: its object, and the ends of a stream. -/
def projectionKeys : ProjectionKind × ProjectionRef → List ((ProjectionKind × String) ⊕ String)
  | (kind, .object object) => [.inl (kind, object.id)]
  | (kind, .stream stream) =>
      .inl (kind, stream.id) :: (stream.ends.map SocketStreamEnd.id).map .inr

/-- What one projection has to be by itself. -/
def ProjectionRef.Sound : ProjectionRef → Prop
  | .object projection => projection.id ≠ "" ∧ projection.Bound
  | .stream projection => projection.id ≠ "" ∧ projection.Ended

theorem checkId_eq_ok {kind : ProjectionKind} {projection : ProjectionRef} :
    checkId kind projection = .ok () ↔ projection.id ≠ "" := by
  rw [checkId, refuse_unless_eq_ok, String.isEmpty_iff]

/-- The scan passes when the projections are sound and repeat no key. -/
theorem scan_meetProjection : Scan Met.Holds meetProjection projectionKeys
    fun projection => projection.2.Sound := by
  refine Scan.pointwise fun (kind, projection) => ?_
  have hid : ∀ _ : Unit, checkId kind projection = .ok () ↔ projection.id ≠ "" :=
    fun _ => checkId_eq_ok
  have hobject := Met.scan_object.comap fun _ : Unit => (kind, projection.id)
  cases projection with
  | object object =>
      have hbound : ∀ _ : Unit, checkBindings kind object = .ok () ↔ object.Bound :=
        fun _ => checkBindings_eq_ok
      refine ((hobject.andThen (Scan.idle.guarded hbound)).guarded hid).congr (fun _ => rfl) ?_
      intro _
      simp [ProjectionRef.Sound, ProjectionRef.id]
  | stream stream =>
      have hcount : ∀ _ : Unit, checkEndCount stream = .ok () ↔
          stream.ends ≠ [] ∧ stream.ends.length ≤ 2 := fun _ => checkEndCount_eq_ok
      have hends := (scan_meetEnds.comap fun _ : Unit => stream).guarded hcount
      refine ((hobject.andThen hends).guarded hid).congr (fun _ => rfl) ?_
      intro _
      constructor
      · rintro ⟨hnamed, -, ⟨hsome, htwo⟩, hsides, hends⟩
        exact ⟨hnamed, hsome, htwo, hsides, hends⟩
      · rintro ⟨hnamed, hended⟩
        exact ⟨hnamed, trivial, ⟨hended.some, hended.two⟩, hended.sides, hended.named⟩

/-! ## All inventories -/

/-- Lists under distinct tags repeat nothing together when none does alone. -/
theorem nodup_tagged {κ ι : Type} {lists : List (κ × List ι)} (htags : (lists.map Prod.fst).Nodup) :
    (lists.flatMap fun (tag, list) => list.map fun item => (tag, item)).Nodup ↔
      ∀ pair ∈ lists, pair.2.Nodup := by
  rw [List.nodup_flatMap]
  constructor
  · rintro ⟨halone, -⟩ pair hpair
    exact (List.nodup_map_iff (Prod.mk_right_injective pair.1)).mp (halone pair hpair)
  · intro halone
    refine ⟨fun pair hpair => (halone pair hpair).map (Prod.mk_right_injective pair.1), ?_⟩
    refine (List.pairwise_map.mp htags).imp ?_
    intro first second hne item hfirst hsecond
    obtain ⟨_, -, rfl⟩ := List.mem_map.mp hfirst
    obtain ⟨_, -, heq⟩ := List.mem_map.mp hsecond
    exact hne (Prod.mk.inj heq).1.symm

namespace GuestObservation

variable {observation : GuestObservation}

/-- One inventory of objects: each named and bound, and no identity twice. -/
structure Inventory (objects : List GuestProjection) : Prop where
  distinct : (objects.map GuestProjection.id).Nodup
  sound : ∀ object ∈ objects, object.id ≠ "" ∧ object.Bound

/-- The inventory of streams: each named, with sound ends, and no identity twice. The ends are
distinct in all streams together. -/
structure Streams (streams : List SocketStreamProjection) : Prop where
  distinct : (streams.map SocketStreamProjection.id).Nodup
  sound : ∀ stream ∈ streams, stream.id ≠ "" ∧ stream.Ended
  ends : (streams.flatMap fun stream => stream.ends.map SocketStreamEnd.id).Nodup

/-- What an observation holds when it is accepted. -/
structure Accepted (observation : GuestObservation) : Prop where
  fsMounts : Inventory observation.fsMounts
  fsHandles : Inventory observation.fsHandles
  socketListeners : Inventory observation.socketListeners
  socketStreams : Streams observation.socketStreams
  dnsListeners : Inventory observation.network.dnsListeners
  tuns : Inventory observation.network.tuns
  routes : Inventory observation.network.routes
  proxyRules : Inventory observation.network.proxyRules
  tcpFlows : Inventory observation.network.tcpFlows
  udpFlows : Inventory observation.network.udpFlows

/-- The code's one list of inventories leaves none out. -/
theorem accepted_iff_inventories : observation.Accepted ↔
    (∀ inventory ∈ observation.inventories, Inventory inventory.2) ∧
      Streams observation.socketStreams := by
  simp only [inventories, List.forall_mem_cons, List.not_mem_nil, false_implies, implies_true,
    and_true]
  constructor
  · intro haccepted
    exact ⟨⟨haccepted.fsMounts, haccepted.fsHandles, haccepted.socketListeners,
      haccepted.dnsListeners, haccepted.tuns, haccepted.routes, haccepted.proxyRules,
      haccepted.tcpFlows, haccepted.udpFlows⟩, haccepted.socketStreams⟩
  · rintro ⟨⟨hmounts, hhandles, hlisteners, hdns, htuns, hroutes, hrules, htcp, hudp⟩, hstreams⟩
    exact ⟨hmounts, hhandles, hlisteners, hstreams, hdns, htuns, hroutes, hrules, htcp, hudp⟩

theorem Accepted.objects (haccepted : observation.Accepted) :
    ∀ inventory ∈ observation.inventories, Inventory inventory.2 :=
  (accepted_iff_inventories.mp haccepted).1

/-- The projections are the objects of the inventories and the streams. -/
theorem mem_projections {projection : ProjectionKind × ProjectionRef} :
    projection ∈ observation.projections ↔
      (∃ inventory ∈ observation.inventories, ∃ object ∈ inventory.2,
        projection = (inventory.1, .object object)) ∨
      ∃ stream ∈ observation.socketStreams, projection = (.socketStreams, .stream stream) := by
  simp only [projections, List.mem_append, List.mem_flatMap, List.mem_map, eq_comm]

theorem forall_projections {P : ProjectionKind × ProjectionRef → Prop} :
    (∀ projection ∈ observation.projections, P projection) ↔
      (∀ inventory ∈ observation.inventories, ∀ object ∈ inventory.2,
        P (inventory.1, .object object)) ∧
      ∀ stream ∈ observation.socketStreams, P (.socketStreams, .stream stream) := by
  constructor
  · intro hall
    exact ⟨fun inventory hinventory object hobject => hall _ (mem_projections.mpr
        (.inl ⟨inventory, hinventory, object, hobject, rfl⟩)),
      fun stream hstream => hall _ (mem_projections.mpr (.inr ⟨stream, hstream, rfl⟩))⟩
  · rintro ⟨hobjects, hstreams⟩ projection hprojection
    rcases mem_projections.mp hprojection with
      ⟨inventory, hinventory, object, hobject, rfl⟩ | ⟨stream, hstream, rfl⟩
    · exact hobjects inventory hinventory object hobject
    · exact hstreams stream hstream

/-- The identities of every inventory, by kind. -/
def idsByKind (observation : GuestObservation) : List (ProjectionKind × List String) :=
  observation.inventories.map (fun (kind, objects) => (kind, objects.map GuestProjection.id)) ++
    [(.socketStreams, observation.socketStreams.map SocketStreamProjection.id)]

/-- Each kind has one list of ids. -/
theorem idsByKind_tags : (observation.idsByKind.map Prod.fst).Nodup := by
  change [ProjectionKind.fsMounts, .fsHandles, .socketListeners, .dnsListeners, .tuns, .routes,
    .proxyRules, .tcpFlows, .udpFlows, .socketStreams].Nodup
  decide

theorem projectionKeys_object (projection : ProjectionKind × ProjectionRef) :
    (projectionKeys projection).filterMap Sum.getLeft? = [(projection.1, projection.2.id)] := by
  obtain ⟨kind, _ | stream⟩ := projection
  · rfl
  · simp [projectionKeys, ProjectionRef.id, List.filterMap_map, Function.comp_def]

/-- The keys of the objects are the ids by kind. -/
theorem objects_keys : (observation.projections.flatMap projectionKeys).filterMap Sum.getLeft? =
    observation.idsByKind.flatMap fun (kind, ids) => ids.map fun id => (kind, id) := by
  rw [List.filterMap_flatMap]
  simp only [projectionKeys_object]
  rw [← List.map_eq_flatMap, projections, idsByKind, List.map_append, List.map_flatMap,
    List.flatMap_append, List.flatMap_map, List.flatMap_singleton]
  simp only [List.map_map]
  rfl

/-- The keys of the ends are the ids of the ends. -/
theorem ends_keys : (observation.projections.flatMap projectionKeys).filterMap Sum.getRight? =
    observation.socketStreams.flatMap fun stream => stream.ends.map SocketStreamEnd.id := by
  have hobjects : ∀ kind object,
      (projectionKeys (kind, .object object)).filterMap Sum.getRight? = [] := fun _ _ => rfl
  have hstreams : ∀ kind stream, (projectionKeys (kind, .stream stream)).filterMap Sum.getRight? =
      stream.ends.map SocketStreamEnd.id := by
    intro kind stream
    change ((stream.ends.map SocketStreamEnd.id).map Sum.inr).filterMap Sum.getRight? = _
    rw [List.filterMap_map]
    exact List.filterMap_some
  rw [List.filterMap_flatMap, projections, List.flatMap_append, List.flatMap_map,
    List.flatMap_assoc]
  have hnone : (observation.inventories.flatMap fun inventory =>
      (inventory.2.map fun object => (inventory.1, ProjectionRef.object object)).flatMap
        fun projection => (projectionKeys projection).filterMap Sum.getRight?) = [] := by
    simp only [List.flatMap_map, hobjects]
    simp
  rw [hnone, List.nil_append]
  simp only [hstreams]

/-- Validation accepts exactly what holds the rules. -/
theorem validate_eq_ok_iff : observation.validate = .ok () ↔ observation.Accepted := by
  have hrun := scan_meetProjection.run_ok_iff ⟨[], []⟩
    (by rintro (_ | _) hheld <;> cases hheld) observation.projections
  rw [validate, map_unit_eq_ok, hrun, Scan.nodup_sums, objects_keys, ends_keys,
    nodup_tagged idsByKind_tags, forall_projections]
  rw [idsByKind, List.forall_mem_append, List.forall_mem_map, List.forall_mem_singleton]
  rw [accepted_iff_inventories]
  constructor
  · rintro ⟨⟨hobjects, hstreams⟩, ⟨hids, hstreamIds⟩, hends⟩
    exact ⟨fun inventory hinventory => ⟨hids inventory hinventory, hobjects inventory hinventory⟩,
      hstreamIds, hstreams, hends⟩
  · rintro ⟨hobjects, hstreams⟩
    exact ⟨⟨fun inventory hinventory => (hobjects inventory hinventory).sound, hstreams.sound⟩,
      ⟨fun inventory hinventory => (hobjects inventory hinventory).distinct, hstreams.distinct⟩,
      hstreams.ends⟩

end GuestObservation

/-! ## The order of the lists -/

/-- The same object, its bindings in any order. -/
structure GuestProjection.Reordered (first second : GuestProjection) : Prop where
  id : first.id = second.id
  bindings : first.bindings.Perm second.bindings

/-- The same stream, its ends in any order. -/
structure SocketStreamProjection.Reordered (first second : SocketStreamProjection) : Prop where
  id : first.id = second.id
  grant : first.grant = second.grant
  ends : first.ends.Perm second.ends

theorem GuestProjection.Reordered.bound_iff {first second : GuestProjection}
    (hreordered : first.Reordered second) : first.Bound ↔ second.Bound := by
  have hempty : first.bindings = [] ↔ second.bindings = [] := by
    rw [← List.length_eq_zero_iff, hreordered.bindings.length_eq, List.length_eq_zero_iff]
  have hgrants := (hreordered.bindings.map GuestBinding.grant).nodup_iff
  constructor
  · intro hbound
    exact ⟨fun hnone => hbound.some (hempty.mpr hnone), hgrants.mp hbound.grants⟩
  · intro hbound
    exact ⟨fun hnone => hbound.some (hempty.mp hnone), hgrants.mpr hbound.grants⟩

theorem SocketStreamProjection.Reordered.ended_iff {first second : SocketStreamProjection}
    (hreordered : first.Reordered second) : first.Ended ↔ second.Ended := by
  have hlength := hreordered.ends.length_eq
  have hempty : first.ends = [] ↔ second.ends = [] := by
    rw [← List.length_eq_zero_iff, hlength, List.length_eq_zero_iff]
  have hsides := (hreordered.ends.map SocketStreamEnd.side).nodup_iff
  constructor
  · intro hended
    exact ⟨fun hnone => hended.some (hempty.mpr hnone), hlength ▸ hended.two,
      hsides.mp hended.sides,
      fun «end» hmem => hended.named «end» (hreordered.ends.mem_iff.mpr hmem)⟩
  · intro hended
    exact ⟨fun hnone => hended.some (hempty.mp hnone), hlength ▸ hended.two,
      hsides.mpr hended.sides,
      fun «end» hmem => hended.named «end» (hreordered.ends.mem_iff.mp hmem)⟩

/-- The same inventory, its objects and their bindings in any order. -/
abbrev SameObjects (first second : List GuestProjection) : Prop :=
  ReorderedBy GuestProjection.Reordered first second

structure GuestNetworkObservation.Reordered (first second : GuestNetworkObservation) : Prop where
  dnsListeners : SameObjects first.dnsListeners second.dnsListeners
  tuns : SameObjects first.tuns second.tuns
  routes : SameObjects first.routes second.routes
  proxyRules : SameObjects first.proxyRules second.proxyRules
  tcpFlows : SameObjects first.tcpFlows second.tcpFlows
  udpFlows : SameObjects first.udpFlows second.udpFlows

namespace GuestObservation

/-- The same observation, with every inventory, binding list and end list in any order. -/
structure Reordered (first second : GuestObservation) : Prop where
  boot : first.boot = second.boot
  policy : first.policy = second.policy
  fsMounts : SameObjects first.fsMounts second.fsMounts
  fsHandles : SameObjects first.fsHandles second.fsHandles
  socketListeners : SameObjects first.socketListeners second.socketListeners
  socketStreams : ReorderedBy SocketStreamProjection.Reordered first.socketStreams
    second.socketStreams
  network : first.network.Reordered second.network
  software : first.software = second.software

namespace Reordered

variable {first second : GuestObservation}

theorem inventories (hreordered : first.Reordered second) :
    List.Forall₂ (fun before after : ProjectionKind × List GuestProjection =>
      before.1 = after.1 ∧ SameObjects before.2 after.2) first.inventories second.inventories := by
  obtain ⟨-, -, hmounts, hhandles, hlisteners, -, hnetwork, -⟩ := hreordered
  exact .cons ⟨rfl, hmounts⟩ (.cons ⟨rfl, hhandles⟩ (.cons ⟨rfl, hlisteners⟩
    (.cons ⟨rfl, hnetwork.dnsListeners⟩ (.cons ⟨rfl, hnetwork.tuns⟩ (.cons ⟨rfl, hnetwork.routes⟩
      (.cons ⟨rfl, hnetwork.proxyRules⟩ (.cons ⟨rfl, hnetwork.tcpFlows⟩
        (.cons ⟨rfl, hnetwork.udpFlows⟩ .nil))))))))

theorem inventory_iff {before after : List GuestProjection} (hsame : SameObjects before after) :
    Inventory before ↔ Inventory after := by
  have hids := (hsame.map_perm fun _ _ hobject => hobject.id).nodup_iff
  have hsound : (∀ object ∈ before, object.id ≠ "" ∧ object.Bound) ↔
      ∀ object ∈ after, object.id ≠ "" ∧ object.Bound :=
    hsame.forall_iff fun _ _ hobject => by rw [hobject.id, hobject.bound_iff]
  exact ⟨fun hbefore => ⟨hids.mp hbefore.distinct, hsound.mp hbefore.sound⟩,
    fun hafter => ⟨hids.mpr hafter.distinct, hsound.mpr hafter.sound⟩⟩

theorem streams_iff {before after : List SocketStreamProjection}
    (hsame : ReorderedBy SocketStreamProjection.Reordered before after) :
    Streams before ↔ Streams after := by
  have hids := (hsame.map_perm fun _ _ hstream => hstream.id).nodup_iff
  have hsound : (∀ stream ∈ before, stream.id ≠ "" ∧ stream.Ended) ↔
      ∀ stream ∈ after, stream.id ≠ "" ∧ stream.Ended :=
    hsame.forall_iff fun _ _ hstream => by rw [hstream.id, hstream.ended_iff]
  have hends := (hsame.flatMap_perm fun _ _ hstream =>
    hstream.ends.map SocketStreamEnd.id).nodup_iff
  exact ⟨fun hbefore => ⟨hids.mp hbefore.distinct, hsound.mp hbefore.sound, hends.mp hbefore.ends⟩,
    fun hafter => ⟨hids.mpr hafter.distinct, hsound.mpr hafter.sound, hends.mpr hafter.ends⟩⟩

/-- Acceptance does not depend on the order of an observation. -/
theorem accepted_iff (hreordered : first.Reordered second) : first.Accepted ↔ second.Accepted := by
  have hobjects := forall_iff_of_forall₂ (P := fun inventory => Inventory inventory.2)
    (Q := fun inventory => Inventory inventory.2)
    (fun _ _ hsame => inventory_iff hsame.2) hreordered.inventories
  rw [accepted_iff_inventories, accepted_iff_inventories, hobjects,
    streams_iff hreordered.socketStreams]

end Reordered

/-! ## The bindings -/

variable {observation : GuestObservation}

/-- The object of this identity is bound to the grant. -/
def BindsObject (objects : List GuestProjection) (id : String) (grant : GrantId) : Prop :=
  ∃ object ∈ objects, object.id = id ∧ ∃ binding ∈ object.bindings, binding.grant = grant

/-- The object or stream of this kind and identity is bound to the grant. -/
def Binds (observation : GuestObservation) (kind : ProjectionKind) (id : String)
    (grant : GrantId) : Prop :=
  match kind with
  | .fsMounts => BindsObject observation.fsMounts id grant
  | .fsHandles => BindsObject observation.fsHandles id grant
  | .socketListeners => BindsObject observation.socketListeners id grant
  | .socketStreams => ∃ stream ∈ observation.socketStreams, stream.id = id ∧ stream.grant = grant
  | .dnsListeners => BindsObject observation.network.dnsListeners id grant
  | .tuns => BindsObject observation.network.tuns id grant
  | .routes => BindsObject observation.network.routes id grant
  | .proxyRules => BindsObject observation.network.proxyRules id grant
  | .tcpFlows => BindsObject observation.network.tcpFlows id grant
  | .udpFlows => BindsObject observation.network.udpFlows id grant

/-- What an observation binds is listed in an inventory or by a stream. -/
theorem binds_iff {kind : ProjectionKind} {id : String} {grant : GrantId} :
    observation.Binds kind id grant ↔
      (∃ objects, (kind, objects) ∈ observation.inventories ∧ BindsObject objects id grant) ∨
      kind = .socketStreams ∧ ∃ stream ∈ observation.socketStreams,
        stream.id = id ∧ stream.grant = grant := by
  cases kind <;> simp [Binds, inventories]

/-- The grants are the bindings. -/
theorem mem_grants {kind : ProjectionKind} {id : String} {grant : GrantId} :
    (kind, id, grant) ∈ observation.grants ↔ observation.Binds kind id grant := by
  rw [binds_iff, grants, List.mem_flatMap]
  constructor
  · rintro ⟨projection, hprojection, hmem⟩
    rcases mem_projections.mp hprojection with
      ⟨inventory, hinventory, object, hobject, rfl⟩ | ⟨stream, hstream, rfl⟩
    · obtain ⟨binding, hbinding, heq⟩ := List.mem_map.mp hmem
      cases heq
      exact .inl ⟨inventory.2, hinventory, object, hobject, rfl, binding, hbinding, rfl⟩
    · rw [List.mem_singleton] at hmem
      cases hmem
      exact .inr ⟨rfl, stream, hstream, rfl, rfl⟩
  · rintro (⟨objects, hinventory, object, hobject, rfl, binding, hbinding, rfl⟩ |
      ⟨rfl, stream, hstream, rfl, rfl⟩)
    · exact ⟨_, mem_projections.mpr (.inl ⟨_, hinventory, object, hobject, rfl⟩),
        List.mem_map.mpr ⟨binding, hbinding, rfl⟩⟩
    · exact ⟨_, mem_projections.mpr (.inr ⟨stream, hstream, rfl⟩), List.mem_singleton.mpr rfl⟩

/-- The projections of an accepted observation differ in kind or identity. -/
theorem Accepted.distinct (haccepted : observation.Accepted) :
    (observation.projections.map fun projection => (projection.1, projection.2.id)).Nodup := by
  have hkeys : (observation.projections.flatMap projectionKeys).filterMap Sum.getLeft? =
      observation.projections.map fun projection => (projection.1, projection.2.id) := by
    rw [List.filterMap_flatMap, List.map_eq_flatMap]
    exact congrArg (fun keys => observation.projections.flatMap keys)
      (funext fun projection => projectionKeys_object projection)
  rw [← hkeys, objects_keys, nodup_tagged idsByKind_tags, idsByKind, List.forall_mem_append,
    List.forall_mem_map, List.forall_mem_singleton]
  exact ⟨fun inventory hinventory => (haccepted.objects inventory hinventory).distinct,
    haccepted.socketStreams.distinct⟩

/-- An accepted observation lists every binding once. -/
theorem Accepted.nodup_grants (haccepted : observation.Accepted) : observation.grants.Nodup := by
  unfold grants
  rw [List.nodup_flatMap]
  refine ⟨?_, ?_⟩
  · rw [forall_projections]
    refine ⟨fun inventory hinventory object hobject => ?_, fun _ _ => List.nodup_singleton _⟩
    have hbound := ((haccepted.objects inventory hinventory).sound object hobject).2
    have hgrants := hbound.grants.map (f := fun grant => (inventory.1, object.id, grant))
      fun _ _ heq => (Prod.mk.inj (Prod.mk.inj heq).2).2
    rwa [List.map_map] at hgrants
  · refine (List.pairwise_map.mp haccepted.distinct).imp ?_
    rintro ⟨kind, first⟩ ⟨other, second⟩ hne binding hfirst hsecond
    have hkey : ∀ kind projection, binding ∈ (match projection with
        | ProjectionRef.object object =>
            object.bindings.map fun bound : GuestBinding => (kind, object.id, bound.grant)
        | .stream stream => [(kind, stream.id, stream.grant)]) →
          binding.1 = kind ∧ binding.2.1 = projection.id := by
      rintro kind (object | stream) hmem
      · obtain ⟨_, -, rfl⟩ := List.mem_map.mp hmem
        exact ⟨rfl, rfl⟩
      · rw [List.mem_singleton] at hmem
        rw [hmem]
        exact ⟨rfl, rfl⟩
    obtain ⟨hkind, hid⟩ := hkey kind first hfirst
    obtain ⟨hotherKind, hotherId⟩ := hkey other second hsecond
    exact hne (Prod.ext (hkind.symm.trans hotherKind) (hid.symm.trans hotherId))

end GuestObservation

end Plasmosome.Guest
