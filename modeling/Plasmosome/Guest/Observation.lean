import Plasmosome.Backend.Digest
import Plasmosome.Backend.Universe
import Plasmosome.Foundation.Scans

/-!
# What a guest reports

The guest's structural account of its boot: every object it holds, in the
inventory of its kind, with the grants bound to it. Validation is one pass over
all inventories that stops at the first structural fault.
-/

namespace Plasmosome.Guest

open Foundation Backend

/-- The thirty-two bytes that name one boot. -/
structure BootToken where
  bytes : Vector UInt8 32
deriving DecidableEq, Repr

inductive GuestAdmission where
  | staged
  | active
  | draining
  | closed
  | revoked
deriving DecidableEq, Repr

/-- The grant and inspected admission of one object's binding. -/
structure GuestBinding where
  grant : GrantId
  admission : GuestAdmission
deriving DecidableEq

/-- One physical object with every actual binding. -/
structure GuestProjection where
  id : String
  bindings : List GuestBinding
deriving DecidableEq

inductive StreamSide where
  | accepted
  | relay
deriving DecidableEq, Repr

/-- One endpoint of a stream that is still present. -/
structure SocketStreamEnd where
  side : StreamSide
  id : String
deriving DecidableEq

structure SocketStreamProjection where
  id : String
  grant : GrantId
  ends : List SocketStreamEnd
deriving DecidableEq

/-- No record of a software tree exists yet. -/
inductive SoftwareTree
deriving DecidableEq

/-- One scanned reference into detached software. -/
structure TreeReference where
  path : String
  pid : UInt64
  comm : String
  execId : Option String
deriving DecidableEq

structure SoftwareObservation where
  trees : List SoftwareTree
  held : List TreeReference
deriving DecidableEq

structure GuestNetworkObservation where
  dnsListeners : List GuestProjection
  tuns : List GuestProjection
  routes : List GuestProjection
  proxyRules : List GuestProjection
  tcpFlows : List GuestProjection
  udpFlows : List GuestProjection
deriving DecidableEq

/-- The guest's complete structural account. -/
structure GuestObservation where
  boot : BootToken
  policy : Digest
  fsMounts : List GuestProjection
  fsHandles : List GuestProjection
  socketListeners : List GuestProjection
  socketStreams : List SocketStreamProjection
  network : GuestNetworkObservation
  software : SoftwareObservation
deriving DecidableEq

/-- The containing inventory fixes an object's kind. -/
inductive ProjectionKind where
  | fsMounts
  | fsHandles
  | socketListeners
  | socketStreams
  | dnsListeners
  | tuns
  | routes
  | proxyRules
  | tcpFlows
  | udpFlows
deriving DecidableEq, Repr

/-- A projection, with a stream's different representation of its binding. -/
inductive ProjectionRef where
  | object (object : GuestProjection)
  | stream (stream : SocketStreamProjection)
deriving DecidableEq

def ProjectionRef.id : ProjectionRef → String
  | .object projection => projection.id
  | .stream projection => projection.id

/-- The first structural fault. -/
inductive GuestObservationFault where
  | emptyId (kind : ProjectionKind)
  | emptyBindings (kind : ProjectionKind) (id : String)
  | duplicateObject (kind : ProjectionKind) (id : String)
  | duplicateBinding (kind : ProjectionKind) (id : String) (grant : GrantId)
  | streamEndCount (id : String) (count : Nat)
  | duplicateStreamSide (id : String) (side : StreamSide)
  | emptyStreamEndId (id : String)
  | duplicateStreamEnd («end» : String)
deriving DecidableEq

/-- What a validation has met: the objects by kind and identity, and the stream ends. -/
structure Met where
  objects : List (ProjectionKind × String)
  ends : List String

/-- Refuses an identity met before in its kind. -/
def Met.object (met : Met) (kind : ProjectionKind) (id : String) :
    Except GuestObservationFault Met :=
  (enter (.duplicateObject kind id) met.objects (kind, id)).map fun objects =>
    { met with objects }

/-- Refuses an object bound to nothing, or twice to one grant. -/
def checkBindings (kind : ProjectionKind) (object : GuestProjection) :
    Except GuestObservationFault Unit :=
  if object.bindings.isEmpty then .error (.emptyBindings kind object.id)
  else
    (object.bindings.foldlM (fun grants binding =>
      enter (.duplicateBinding kind object.id binding.grant) grants binding.grant) []).map
        fun _ => ()

/-- The sides met in one stream, and the ends met in all of them. -/
abbrev EndsMet := List StreamSide × List String

def meetSide (id : String) (met : EndsMet) («end» : SocketStreamEnd) :
    Except GuestObservationFault EndsMet :=
  (enter (.duplicateStreamSide id «end».side) met.1 «end».side).map fun sides => (sides, met.2)

def checkEndId (id : String) («end» : SocketStreamEnd) : Except GuestObservationFault Unit :=
  if «end».id.isEmpty then .error (.emptyStreamEndId id) else .ok ()

def meetEndId (met : EndsMet) («end» : SocketStreamEnd) : Except GuestObservationFault EndsMet :=
  (enter (.duplicateStreamEnd «end».id) met.2 «end».id).map fun ends => (met.1, ends)

/-- Checks one end of a stream against the sides of its stream and the ends of all streams. -/
def meetEnd (id : String) (met : EndsMet) («end» : SocketStreamEnd) :
    Except GuestObservationFault EndsMet := do
  let met ← meetSide id met «end»
  checkEndId id «end»
  meetEndId met «end»

def checkEndCount (stream : SocketStreamProjection) : Except GuestObservationFault Unit :=
  if stream.ends.isEmpty || stream.ends.length > 2 then
    .error (.streamEndCount stream.id stream.ends.length)
  else .ok ()

def meetEnds (met : Met) (stream : SocketStreamProjection) : Except GuestObservationFault Met :=
  ((stream.ends.foldlM (meetEnd stream.id) ([], met.ends)).map Prod.snd).map fun ends =>
    { met with ends }

def checkId (kind : ProjectionKind) (projection : ProjectionRef) :
    Except GuestObservationFault Unit :=
  if projection.id.isEmpty then .error (.emptyId kind) else .ok ()

/-- One turn of the validation. -/
def meetProjection (met : Met) : ProjectionKind × ProjectionRef → Except GuestObservationFault Met
  | (kind, .object object) => do
      checkId kind (.object object)
      let met ← met.object kind object.id
      checkBindings kind object
      .ok met
  | (kind, .stream stream) => do
      checkId kind (.stream stream)
      let met ← met.object kind stream.id
      checkEndCount stream
      meetEnds met stream

namespace GuestObservation

/-- An account with every required inventory present and empty. -/
def empty (boot : BootToken) (policy : Digest) : GuestObservation where
  boot
  policy
  fsMounts := []
  fsHandles := []
  socketListeners := []
  socketStreams := []
  network := ⟨[], [], [], [], [], []⟩
  software := ⟨[], []⟩

variable (observation : GuestObservation)

/-- The inventories of ordinary objects, by kind. -/
def inventories : List (ProjectionKind × List GuestProjection) :=
  [(.fsMounts, observation.fsMounts), (.fsHandles, observation.fsHandles),
    (.socketListeners, observation.socketListeners),
    (.dnsListeners, observation.network.dnsListeners), (.tuns, observation.network.tuns),
    (.routes, observation.network.routes), (.proxyRules, observation.network.proxyRules),
    (.tcpFlows, observation.network.tcpFlows), (.udpFlows, observation.network.udpFlows)]

/-- Every projection in all ten kinds: the ordinary inventories, then the streams. -/
def projections : List (ProjectionKind × ProjectionRef) :=
  (observation.inventories.flatMap fun (kind, objects) =>
      objects.map fun object => (kind, .object object)) ++
    observation.socketStreams.map fun stream => (.socketStreams, .stream stream)

/-- Every binding, including each stream's grant. -/
def grants : List (ProjectionKind × String × GrantId) :=
  observation.projections.flatMap fun (kind, projection) =>
    match projection with
    | .object object => object.bindings.map fun binding => (kind, object.id, binding.grant)
    | .stream stream => [(kind, stream.id, stream.grant)]

def validate : Except GuestObservationFault Unit :=
  (observation.projections.foldlM meetProjection ⟨[], []⟩).map fun _ => ()

end GuestObservation

end Plasmosome.Guest
