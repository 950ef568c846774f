import Mathlib
import Iceoryx.Machine.Visit
import Iceoryx.Popo.Ports
import Iceoryx.Roudi.ServiceRegistry

/-!
# `PortManager`: discovery between publishers and subscribers

RouDi's `PortManager` (`port_manager.cpp`) owns the port pool. Its discovery loop `doDiscovery`
walks the publisher ports and then the subscriber ports; for each it asks the RouDi side of the
port for a CaPro message (`Iceoryx.Popo.Ports`) and passes it on:

* a publisher's `OFFER` or `STOP_OFFER` updates the service registry and goes to every
  subscriber port that matches it (`sendToAllMatchingSubscriberPorts`); a subscriber's answer
  (its `SUB` to an `OFFER`) goes back to the publisher, and the publisher's answer (`ACK` or
  `NACK`) to the subscriber;
* a subscriber's `SUB` or `UNSUB` goes to every matching publisher port
  (`sendToAllMatchingPublisherPorts`) and each answer back to the subscriber; when no publisher
  matches, the subscriber is told `NACK`.

A port whose user has asked for its destruction is destroyed after its turn: a publisher stops
its offer first, a subscriber unsubscribes first, and that message is passed on like the
others. Acquiring a port appends it to the pool and runs its discovery at once; under the
`OneToManyPolicy` a publisher is refused when a live one offers the same service, and a dead one
of the same service is destroyed. `deletePortsOfProcess` destroys the ports of a runtime.

A port matches another when the subscriber's service description equals the publisher's (by
`ServiceDescription::operator==`), their options are compatible (`isCompatiblePubSub`), and
neither is a gateway's port of the interface the message came from (iox-#1908).

## The model

The pool's two lists are `List`s in the order of their positions; where the pool's
`FixedPositionContainer` places a new port is an argument of the acquisition. The loops over a
list are `Visit.forEach` and, where the loop may destroy the port it visits, `Visit.filterEach`
(`Iceoryx.Machine.Visit`); a destroyed port is removed by the loop that visits it. The calls of
the ports' users (`offer`, `subscribe`, `destroy`, ...) and RouDi's calls are the actions of
one machine (`step`), whose runs are `run`. Server and client ports, interface ports, condition
variables, the introspection, and the publication of the registry are left out.
-/

namespace Iox.Roudi

open Capro Popo

/-- `PortPoolError`, as far as the acquisitions of publishers and subscribers answer it. -/
inductive PortPoolError
  | uniquePublisherPortAlreadyExists
  | internalServiceDescriptionIsForbidden
  | publisherPortListFull
  | subscriberPortListFull
  deriving DecidableEq, Repr

/-- The build's constants that discovery reads, and the name of RouDi's own runtime. -/
structure PortConfig (Name : Type*) where
  /-- `iox::build::CommunicationPolicy` -/
  policy : CommunicationPolicy
  /-- `MAX_PUBLISHERS` -/
  maxPublishers : ℕ
  /-- `MAX_SUBSCRIBERS` -/
  maxSubscribers : ℕ
  /-- `MAX_SUBSCRIBERS_PER_PUBLISHER`, the capacity of a publisher's queue container. -/
  maxQueues : ℕ
  /-- `NUMBER_OF_INTERNAL_PUBLISHERS`, the capacity of `m_internalServices`. -/
  numberOfInternalPublishers : ℕ
  /-- `IPC_CHANNEL_ROUDI_NAME` -/
  roudiName : Name

/-- The `PortManager`'s ports, its service registry, and the unique id counter. -/
structure PortManager (Name : Type*) (capacity : ℕ) where
  /-- `m_portPool->getPublisherPortDataList()` -/
  publishers : List (PublisherPortData Name)
  /-- `m_portPool->getSubscriberPortDataList()` -/
  subscribers : List (SubscriberPortData Name)
  /-- `m_serviceRegistry` -/
  serviceRegistry : ServiceRegistry capacity
  /-- `m_internalServices` -/
  internalServices : List ServiceDescription
  /-- `UniquePortId::globalIDCounter` -/
  globalIDCounter : ℕ

namespace PortManager

variable {Name : Type*} [DecidableEq Name] {capacity : ℕ} (cfg : PortConfig Name)

/-- A port manager with empty pools; the id counter starts at `1`. -/
def new : PortManager Name capacity :=
  ⟨[], [], ServiceRegistry.empty, [], 1⟩

/-! ### Matching ports -/

/-- The test of iox-#1908: a port that is not `INTERNAL` skips the messages of its own
interface, which would otherwise run in a cycle through a gateway. -/
def skipsInterface (portInterface messageInterface : Interfaces) : Bool :=
  portInterface != .internal && portInterface == messageInterface

/-- `isCompatiblePubSub(publisher, subscriber)` -/
def isCompatiblePubSub (publisher : PublisherPortData Name) (subscriber : SubscriberPortData Name) :
    Bool :=
  if !subscriber.serviceDescription.beq publisher.serviceDescription then false
  else
    let blockingPoliciesAreCompatible :=
      !(publisher.options.subscriberTooSlowPolicy == .discardOldestData &&
        subscriber.options.queueFullPolicy == .blockProducer)
    let historyRequestIsCompatible :=
      !subscriber.options.requiresPublisherHistorySupport || 0 < publisher.options.historyCapacity
    blockingPoliciesAreCompatible && historyRequestIsCompatible

/-! ### Passing messages on -/

/-- The body of `sendToAllMatchingSubscriberPorts(message, publisherSource)` for one subscriber
port. -/
def sendToSubscriberPort (message : CaproMessage) (publisherSource : PublisherPortData Name)
    (subscriberPort : SubscriberPortData Name) :
    Except Fatal (PublisherPortData Name × SubscriberPortData Name) :=
  if skipsInterface subscriberPort.serviceDescription.interfaceSource
      message.serviceDescription.interfaceSource then .ok (publisherSource, subscriberPort)
  else if isCompatiblePubSub publisherSource subscriberPort then do
    let (subscriberPort, subscriberResponse) ←
      SubscriberPortType.dispatchCaProMessageAndGetPossibleResponse cfg.policy subscriberPort message
    match subscriberResponse with
    | none => .ok (publisherSource, subscriberPort)
    | some subscriberResponse =>
      -- we only expect reaction on OFFER
      if message.type = .offer then do
        let (publisherSource, publisherResponse) ←
          PublisherPortRouDi.dispatchCaProMessageAndGetPossibleResponse cfg.maxQueues
            publisherSource subscriberResponse
        match publisherResponse with
        | none => .ok (publisherSource, subscriberPort)
        | some publisherResponse => do
          let (subscriberPort, response) ←
            SubscriberPortType.dispatchCaProMessageAndGetPossibleResponse cfg.policy subscriberPort
              publisherResponse
          if response.isSome then .error .expectedNoResponse
          else .ok (publisherSource, subscriberPort)
      else .error .wrongCaproMessageType
  else .ok (publisherSource, subscriberPort)

/-- `sendToAllMatchingSubscriberPorts(message, publisherSource)` over the subscriber ports. -/
def sendToAllMatchingSubscriberPorts (message : CaproMessage)
    (publisherSource : PublisherPortData Name) (subscribers : List (SubscriberPortData Name)) :
    Except Fatal (PublisherPortData Name × List (SubscriberPortData Name)) :=
  Visit.forEach (sendToSubscriberPort cfg message) publisherSource subscribers

/-- The body of `sendToAllMatchingPublisherPorts(message, subscriberSource)` for one publisher
port; the state is the subscriber and `publisherFound`. -/
def sendToPublisherPort (message : CaproMessage) (source : SubscriberPortData Name × Bool)
    (publisherPort : PublisherPortData Name) :
    Except Fatal ((SubscriberPortData Name × Bool) × PublisherPortData Name) :=
  let (subscriberSource, _) := source
  if skipsInterface publisherPort.serviceDescription.interfaceSource
      message.serviceDescription.interfaceSource then .ok (source, publisherPort)
  else if isCompatiblePubSub publisherPort subscriberSource then do
    let (publisherPort, publisherResponse) ←
      PublisherPortRouDi.dispatchCaProMessageAndGetPossibleResponse cfg.maxQueues publisherPort
        message
    match publisherResponse with
    | none => .ok ((subscriberSource, true), publisherPort)
    | some publisherResponse => do
      let (subscriberSource, response) ←
        SubscriberPortType.dispatchCaProMessageAndGetPossibleResponse cfg.policy subscriberSource
          publisherResponse
      if response.isSome then .error .expectedNoResponse
      else .ok ((subscriberSource, true), publisherPort)
  else .ok (source, publisherPort)

/-- `sendToAllMatchingPublisherPorts(message, subscriberSource)` over the publisher ports: the
subscriber, the publishers, and whether one matched. -/
def sendToAllMatchingPublisherPorts (message : CaproMessage)
    (subscriberSource : SubscriberPortData Name) (publishers : List (PublisherPortData Name)) :
    Except Fatal (SubscriberPortData Name × List (PublisherPortData Name) × Bool) := do
  let ((subscriberSource, publisherFound), publishers) ←
    Visit.forEach (sendToPublisherPort cfg message) (subscriberSource, false) publishers
  return (subscriberSource, publishers, publisherFound)

/-! ### Discovery for one port -/

/-- The registry after a publisher's message: `addPublisherToServiceRegistry` on an `OFFER`
(a full registry only logs), `removePublisherFromServiceRegistry` on a `STOP_OFFER`; `none` for
any other message, which is reported and dropped. -/
def updateServiceRegistry (reg : ServiceRegistry capacity) (caproMessage : CaproMessage) :
    Option (ServiceRegistry capacity) :=
  if caproMessage.type = .offer then some (reg.addPublisher caproMessage.serviceDescription).1
  else if caproMessage.type = .stopOffer then
    some (reg.removePublisher caproMessage.serviceDescription)
  else none

/-- `doDiscoveryForPublisherPort(publisherPort)`; the port is returned, the publisher list is
not read. -/
def doDiscoveryForPublisherPort (pm : PortManager Name capacity)
    (publisherPort : PublisherPortData Name) :
    Except Fatal (PortManager Name capacity × PublisherPortData Name) :=
  match PublisherPortRouDi.tryGetCaProMessage publisherPort with
  | (publisherPort, none) => .ok (pm, publisherPort)
  | (publisherPort, some caproMessage) =>
    match updateServiceRegistry pm.serviceRegistry caproMessage with
    | none => .ok (pm, publisherPort)
    | some serviceRegistry => do
      let (publisherPort, subscribers) ←
        sendToAllMatchingSubscriberPorts cfg caproMessage publisherPort pm.subscribers
      return ({ pm with serviceRegistry, subscribers }, publisherPort)

/-- `doDiscoveryForSubscriberPort(subscriberPort)`; the port is returned, the subscriber list
is not read. -/
def doDiscoveryForSubscriberPort (pm : PortManager Name capacity)
    (subscriberPort : SubscriberPortData Name) :
    Except Fatal (PortManager Name capacity × SubscriberPortData Name) :=
  match SubscriberPortType.tryGetCaProMessage cfg.policy subscriberPort with
  | (subscriberPort, none) => .ok (pm, subscriberPort)
  | (subscriberPort, some caproMessage) =>
    if caproMessage.type = .sub ∨ caproMessage.type = .unsub then do
      let (subscriberPort, publishers, publisherFound) ←
        sendToAllMatchingPublisherPorts cfg caproMessage subscriberPort pm.publishers
      if publisherFound then .ok ({ pm with publishers }, subscriberPort)
      else do
        let nackMessage : CaproMessage :=
          { type := .nack, serviceDescription := subscriberPort.serviceDescription }
        let (subscriberPort, response) ←
          SubscriberPortType.dispatchCaProMessageAndGetPossibleResponse cfg.policy subscriberPort
            nackMessage
        if response.isSome then .error .expectedNoResponse
        else .ok ({ pm with publishers }, subscriberPort)
    -- reported and dropped
    else .ok (pm, subscriberPort)

/-- `destroyPublisherPort(publisherPortData)` up to `removePublisherPort`, which the caller
does: the offer is stopped and the `STOP_OFFER` passed on. -/
def destroyPublisherPort (pm : PortManager Name capacity)
    (publisherPortData : PublisherPortData Name) : Except Fatal (PortManager Name capacity) :=
  match PublisherPortRouDi.tryGetCaProMessage (PublisherPortUser.stopOffer publisherPortData) with
  | (_, none) => .ok pm
  | (publisherPort, some caproMessage) =>
    if caproMessage.type = .stopOffer then do
      let serviceRegistry := pm.serviceRegistry.removePublisher caproMessage.serviceDescription
      let (_, subscribers) ←
        sendToAllMatchingSubscriberPorts cfg caproMessage publisherPort pm.subscribers
      return { pm with serviceRegistry, subscribers }
    else .error .wrongCaproMessageType

/-- `destroySubscriberPort(subscriberPortData)` up to `removeSubscriberPort`, which the caller
does: the subscriber unsubscribes and the `UNSUB` is passed on. -/
def destroySubscriberPort (pm : PortManager Name capacity)
    (subscriberPortData : SubscriberPortData Name) : Except Fatal (PortManager Name capacity) :=
  match SubscriberPortType.tryGetCaProMessage cfg.policy
      (SubscriberPortUser.unsubscribe subscriberPortData) with
  | (_, none) => .ok pm
  | (subscriberPort, some caproMessage) =>
    if caproMessage.type = .unsub then do
      let (_, publishers, _) ←
        sendToAllMatchingPublisherPorts cfg caproMessage subscriberPort pm.publishers
      return { pm with publishers }
    else .error .wrongCaproMessageType

/-! ### The discovery loop -/

/-- The body of `handlePublisherPorts` for one port: its discovery, then its destruction if its
user asked for it (`none`: removed). -/
def handlePublisherPort (pm : PortManager Name capacity) (publisherPort : PublisherPortData Name) :
    Except Fatal (PortManager Name capacity × Option (PublisherPortData Name)) := do
  let (pm, publisherPort) ← doDiscoveryForPublisherPort cfg pm publisherPort
  if publisherPort.toBeDestroyed then do
    let pm ← destroyPublisherPort cfg pm publisherPort
    return (pm, none)
  else return (pm, some publisherPort)

/-- `handlePublisherPorts()` -/
def handlePublisherPorts (pm : PortManager Name capacity) : Except Fatal (PortManager Name capacity) :=
  do
  let (pm', publishers) ← Visit.filterEach (handlePublisherPort cfg) pm pm.publishers
  return { pm' with publishers }

/-- The body of `handleSubscriberPorts` for one port. -/
def handleSubscriberPort (pm : PortManager Name capacity)
    (subscriberPort : SubscriberPortData Name) :
    Except Fatal (PortManager Name capacity × Option (SubscriberPortData Name)) := do
  let (pm, subscriberPort) ← doDiscoveryForSubscriberPort cfg pm subscriberPort
  if subscriberPort.toBeDestroyed then do
    let pm ← destroySubscriberPort cfg pm subscriberPort
    return (pm, none)
  else return (pm, some subscriberPort)

/-- `handleSubscriberPorts()` -/
def handleSubscriberPorts (pm : PortManager Name capacity) :
    Except Fatal (PortManager Name capacity) := do
  let (pm', subscribers) ← Visit.filterEach (handleSubscriberPort cfg) pm pm.subscribers
  return { pm' with subscribers }

/-- `doDiscovery()`, as far as publishers and subscribers go. -/
def doDiscovery (pm : PortManager Name capacity) : Except Fatal (PortManager Name capacity) := do
  let pm ← handlePublisherPorts cfg pm
  handleSubscriberPorts cfg pm

/-! ### Acquiring and deleting ports -/

/-- `doesViolateCommunicationPolicy<OneToManyPolicy>(service)`: the first publisher of the
service that is not to be destroyed names its runtime; one that is to be destroyed is destroyed
and the search starts again. Each pass but the last removes a port, so `fuel` one more than the
number of ports never runs out. -/
def doesViolateCommunicationPolicy (service : ServiceDescription) :
    ℕ → PortManager Name capacity → Except Fatal (PortManager Name capacity × Option Name)
  | 0, pm => .ok (pm, none)
  | fuel + 1, pm =>
    match pm.publishers.find? (fun p ↦ service.beq p.serviceDescription) with
    | none => .ok (pm, none)
    | some publisherPort =>
      if publisherPort.toBeDestroyed then do
        let pm' ← destroyPublisherPort cfg pm publisherPort
        doesViolateCommunicationPolicy service fuel
          { pm' with publishers := pm.publishers.eraseP (fun p ↦ service.beq p.serviceDescription) }
      else .ok (pm, some publisherPort.runtimeName)

/-- `isInternal(service)` -/
def isInternal (pm : PortManager Name capacity) (service : ServiceDescription) : Bool :=
  pm.internalServices.any (service.beq ·)

/-- `acquirePublisherPortData(service, publisherOptions, runtimeName, ...)`, with the new port at
position `pos` of the list; the answer is the port's or the error's. -/
def acquirePublisherPortData (pm : PortManager Name capacity) (service : ServiceDescription)
    (publisherOptions : PublisherOptions) (runtimeName : Name) (pos : ℕ) :
    Except Fatal (PortManager Name capacity × Except PortPoolError Unit) := do
  let (pm, usedByProcess) ←
    match cfg.policy with
    | .oneToMany => doesViolateCommunicationPolicy cfg service (pm.publishers.length + 1) pm
    | .manyToMany => .ok (pm, none)
  if usedByProcess.isSome then return (pm, .error .uniquePublisherPortAlreadyExists)
  else if runtimeName = cfg.roudiName then
    -- `m_internalServices.push_back(service)`, which does nothing when it is full
    let pm := if pm.internalServices.length < cfg.numberOfInternalPublishers then
      { pm with internalServices := pm.internalServices ++ [service] } else pm
    addPublisherPort pm
  else if isInternal pm service then return (pm, .error .internalServiceDescriptionIsForbidden)
  else addPublisherPort pm
where
  /-- `m_portPool->addPublisherPort(...)`, then the discovery of the new port. -/
  addPublisherPort (pm : PortManager Name capacity) :
      Except Fatal (PortManager Name capacity × Except PortPoolError Unit) :=
    if pm.publishers.length < cfg.maxPublishers then do
      let publisherPort :=
        PublisherPortData.new service runtimeName pm.globalIDCounter publisherOptions
      let (pm', publisherPort) ← doDiscoveryForPublisherPort cfg
        { pm with globalIDCounter := pm.globalIDCounter + 1 } publisherPort
      return ({ pm' with publishers := pm.publishers.insertIdx pos publisherPort }, .ok ())
    else .ok (pm, .error .publisherPortListFull)

/-- `acquireSubscriberPortData(service, subscriberOptions, runtimeName, ...)`, with the new port
at position `pos` of the list. -/
def acquireSubscriberPortData (pm : PortManager Name capacity) (service : ServiceDescription)
    (subscriberOptions : SubscriberOptions) (runtimeName : Name) (pos : ℕ) :
    Except Fatal (PortManager Name capacity × Except PortPoolError Unit) :=
  if pm.subscribers.length < cfg.maxSubscribers then do
    let subscriberPort :=
      SubscriberPortData.new service runtimeName pm.globalIDCounter subscriberOptions
    let (pm', subscriberPort) ← doDiscoveryForSubscriberPort cfg
      { pm with globalIDCounter := pm.globalIDCounter + 1 } subscriberPort
    return ({ pm' with subscribers := pm.subscribers.insertIdx pos subscriberPort }, .ok ())
  else .ok (pm, .error .subscriberPortListFull)

/-- The body of the publisher loop of `deletePortsOfProcess(runtimeName)`. -/
def deletePublisherPortOf (runtimeName : Name) (pm : PortManager Name capacity)
    (publisherPort : PublisherPortData Name) :
    Except Fatal (PortManager Name capacity × Option (PublisherPortData Name)) :=
  if runtimeName = publisherPort.runtimeName then do
    let pm ← destroyPublisherPort cfg pm publisherPort
    return (pm, none)
  else .ok (pm, some publisherPort)

/-- The body of the subscriber loop of `deletePortsOfProcess(runtimeName)`. -/
def deleteSubscriberPortOf (runtimeName : Name) (pm : PortManager Name capacity)
    (subscriberPort : SubscriberPortData Name) :
    Except Fatal (PortManager Name capacity × Option (SubscriberPortData Name)) :=
  if runtimeName = subscriberPort.runtimeName then do
    let pm ← destroySubscriberPort cfg pm subscriberPort
    return (pm, none)
  else .ok (pm, some subscriberPort)

/-- `deletePortsOfProcess(runtimeName)`, as far as publishers and subscribers go. -/
def deletePortsOfProcess (pm : PortManager Name capacity) (runtimeName : Name) :
    Except Fatal (PortManager Name capacity) := do
  let (pm', publishers) ← Visit.filterEach (deletePublisherPortOf cfg runtimeName) pm pm.publishers
  let pm := { pm' with publishers }
  let (pm', subscribers) ←
    Visit.filterEach (deleteSubscriberPortOf cfg runtimeName) pm pm.subscribers
  return { pm' with subscribers }

/-! ### Runs -/

/-- What the users of the ports and RouDi do. A port of a user is named by its position. -/
inductive Action (Name : Type*)
  | acquirePublisherPortData (service : ServiceDescription) (options : PublisherOptions)
      (runtimeName : Name) (pos : ℕ)
  | acquireSubscriberPortData (service : ServiceDescription) (options : SubscriberOptions)
      (runtimeName : Name) (pos : ℕ)
  /-- `PublisherPortUser::offer()` -/
  | offer (port : ℕ)
  /-- `PublisherPortUser::stopOffer()` -/
  | stopOffer (port : ℕ)
  /-- `BasePort::destroy()` of a publisher -/
  | destroyPublisher (port : ℕ)
  /-- `SubscriberPortUser::subscribe()` -/
  | subscribe (port : ℕ)
  /-- `SubscriberPortUser::unsubscribe()` -/
  | unsubscribe (port : ℕ)
  /-- `BasePort::destroy()` of a subscriber -/
  | destroySubscriber (port : ℕ)
  | doDiscovery
  | deletePortsOfProcess (runtimeName : Name)

/-- One action; the answers of the acquisitions are dropped. -/
def step (pm : PortManager Name capacity) : Action Name → Except Fatal (PortManager Name capacity)
  | .acquirePublisherPortData service options runtimeName pos =>
    Prod.fst <$> acquirePublisherPortData cfg pm service options runtimeName pos
  | .acquireSubscriberPortData service options runtimeName pos =>
    Prod.fst <$> acquireSubscriberPortData cfg pm service options runtimeName pos
  | .offer i => .ok { pm with publishers := pm.publishers.modify i PublisherPortUser.offer }
  | .stopOffer i => .ok { pm with publishers := pm.publishers.modify i PublisherPortUser.stopOffer }
  | .destroyPublisher i =>
    .ok { pm with publishers := pm.publishers.modify i fun p ↦ { p with toBeDestroyed := true } }
  | .subscribe i => .ok { pm with subscribers := pm.subscribers.modify i SubscriberPortUser.subscribe }
  | .unsubscribe i =>
    .ok { pm with subscribers := pm.subscribers.modify i SubscriberPortUser.unsubscribe }
  | .destroySubscriber i =>
    .ok { pm with subscribers := pm.subscribers.modify i fun s ↦ { s with toBeDestroyed := true } }
  | .doDiscovery => doDiscovery cfg pm
  | .deletePortsOfProcess runtimeName => deletePortsOfProcess cfg pm runtimeName

/-- The run of a list of actions from `pm`: the final state, or the fatal error that ended it. -/
def run (pm : PortManager Name capacity) (actions : List (Action Name)) :
    Except Fatal (PortManager Name capacity) :=
  actions.foldlM (step cfg) pm

end PortManager

end Iox.Roudi
