import Mathlib
import Iceoryx.Capro.ServiceDescription
import Iceoryx.Popo.ChunkDistributor

/-!
# Publisher and subscriber ports and their CaPro state machines

A publisher and a subscriber do not talk to each other: each has a port in shared memory, and
RouDi's `PortManager` passes CaPro messages between the ports (`Iceoryx.Roudi.PortManager`). A
port has a user side, which only sets a request flag (`PublisherPortUser::offer`,
`SubscriberPortUser::subscribe`), and a RouDi side with two functions:

* `tryGetCaProMessage` compares the request with the port's state and, when they differ, moves
  the state and returns the message that tells the other side (`OFFER`, `STOP_OFFER`, `SUB`,
  `UNSUB`);
* `dispatchCaProMessageAndGetPossibleResponse` takes a message from the other side, moves the
  state and may answer.

The publisher side (`publisher_port_roudi.cpp`) keeps the subscribers' queues in its chunk
distributor: a `SUB` adds the sender's queue (`ChunkDistributor::tryAddQueue`) and is answered
`ACK`, or `NACK` when the port is not offered or the queue container is full; an `UNSUB` removes
it; any other message to an offered port is fatal. The subscriber side comes in two variants,
chosen at build time by the communication policy (`SubscriberPortType`):

* `SubscriberPortSingleProducer` (policy `OneToManyPolicy`) goes through `SUBSCRIBE_REQUESTED` to
  `SUBSCRIBED` on an `ACK`, or to `WAIT_FOR_OFFER` on a `NACK`, and from there back to
  `SUBSCRIBE_REQUESTED` on an `OFFER`; a message that its table does not expect in the current
  state is fatal;
* `SubscriberPortMultiProducer` (policy `ManyToManyPolicy`) moves to `SUBSCRIBED` as soon as it
  asks, answers every `OFFER` with a `SUB` while subscribed, and ignores `ACK`, `NACK` and
  `STOP_OFFER`.

## The model

A port's data (`PublisherPortData`, `SubscriberPortData`) has the fields these functions and
RouDi read. A subscriber's queue is named by its port's unique id; the chunks, the history a
queue is sent when it is added, and the introspection are left out, and so is
`CaproMessage::m_serviceType`, which no function of this model reads. A fatal error ends the
program: a function that can raise one returns `Except Fatal`.
-/

namespace Iox

namespace Capro

/-- `CaproMessageType`, without the end marker. -/
inductive CaproMessageType
  | notype
  | find
  | offer
  | stopOffer
  | sub
  | unsub
  | connect
  | disconnect
  | ack
  | nack
  | pub
  | req
  | res
  | ping
  | pong
  deriving DecidableEq, Repr

/-- `CaproMessage`. `m_chunkQueueData` names a subscriber's queue by its port's unique id;
`none` is `nullptr`, the default. -/
structure CaproMessage where
  type : CaproMessageType
  serviceDescription : ServiceDescription
  chunkQueueData : Option ℕ := none
  deriving DecidableEq

end Capro

namespace Popo

open Capro

/-- What ends the program during discovery. -/
inductive Fatal
  /-- `IOX_REPORT_FATAL(PoshError::POPO__CAPRO_PROTOCOL_ERROR)` -/
  | caproProtocolError
  /-- `IOX_ENFORCE(..., "Received wrong 'CaproMessageType'!")` -/
  | wrongCaproMessageType
  /-- `IOX_PANIC("Expected no response on ACK or NACK messages")`, and on `NACK` messages -/
  | expectedNoResponse
  /-- A `not_null` made of a null `m_chunkQueueData`. -/
  | nullChunkQueueData
  deriving DecidableEq, Repr

/-- `PublisherOptions`, with its defaults; `nodeName` is not read. -/
structure PublisherOptions where
  historyCapacity : ℕ := 0
  offerOnCreate : Bool := true
  subscriberTooSlowPolicy : ConsumerTooSlowPolicy := .discardOldestData
  deriving DecidableEq

/-- `SubscriberOptions`, with its defaults; `queueCapacity`, `historyRequest` and `nodeName` are
read by the chunk queues only. -/
structure SubscriberOptions where
  subscribeOnCreate : Bool := true
  queueFullPolicy : QueueFullPolicy := .discardOldestData
  requiresPublisherHistorySupport : Bool := false
  deriving DecidableEq

/-- `SubscribeState` -/
inductive SubscribeState
  | notSubscribed
  | subscribeRequested
  | subscribed
  | unsubscribeRequested
  | waitForOffer
  deriving DecidableEq, Repr

/-- `BasePortData` -/
structure BasePortData (Name : Type*) where
  serviceDescription : ServiceDescription
  runtimeName : Name
  /-- `m_uniqueId`: the value of `UniquePortId::globalIDCounter` when the port was made. -/
  uniqueId : ℕ
  toBeDestroyed : Bool := false
  deriving DecidableEq

/-- `PublisherPortData`; `queues` is `m_chunkSenderData.m_queues`. -/
structure PublisherPortData (Name : Type*) extends BasePortData Name where
  options : PublisherOptions
  offeringRequested : Bool
  offered : Bool := false
  queues : List ℕ := []
  deriving DecidableEq

/-- `SubscriberPortData` -/
structure SubscriberPortData (Name : Type*) extends BasePortData Name where
  options : SubscriberOptions
  subscribeRequested : Bool
  subscriptionState : SubscribeState := .notSubscribed
  deriving DecidableEq

variable {Name : Type*}

/-- The constructor `PublisherPortData(serviceDescription, runtimeName, ..., publisherOptions)`. -/
def PublisherPortData.new (serviceDescription : ServiceDescription) (runtimeName : Name)
    (uniqueId : ℕ) (options : PublisherOptions) : PublisherPortData Name :=
  { serviceDescription, runtimeName, uniqueId, options
    offeringRequested := options.offerOnCreate }

/-- The constructor `SubscriberPortData(serviceDescription, runtimeName, ..., subscriberOptions)`. -/
def SubscriberPortData.new (serviceDescription : ServiceDescription) (runtimeName : Name)
    (uniqueId : ℕ) (options : SubscriberOptions) : SubscriberPortData Name :=
  { serviceDescription, runtimeName, uniqueId, options
    subscribeRequested := options.subscribeOnCreate }

/-! ### The queue container of a publisher -/

/-- What `ChunkDistributor::tryAddQueue` does to `m_queues`: a queue that is not registered is
appended if the container has room. -/
def addQueue (maxQueues : ℕ) (queues : List ℕ) (queueToAdd : ℕ) :
    Except ChunkDistributorError (List ℕ) :=
  if queueToAdd ∉ queues then
    if queues.length < maxQueues then .ok (queues ++ [queueToAdd])
    else .error .queueContainerOverflow
  else .ok queues

/-- The queue container after `addQueue` of each of `qs` in turn, the refused ones dropped. -/
def addQueues (maxQueues : ℕ) (queues : List ℕ) : List ℕ → List ℕ
  | [] => queues
  | q :: qs =>
    addQueues maxQueues (if q ∉ queues ∧ queues.length < maxQueues then queues ++ [q] else queues) qs

/-- What `ChunkDistributor::tryRemoveQueue` does to `m_queues`. -/
def removeQueue (queues : List ℕ) (queueToRemove : ℕ) : Except ChunkDistributorError (List ℕ) :=
  if queueToRemove ∈ queues then .ok (queues.erase queueToRemove)
  else .error .queueNotInContainer

/-! ### The publisher port -/

namespace PublisherPortUser

/-- `PublisherPortUser::offer()` -/
def offer (p : PublisherPortData Name) : PublisherPortData Name :=
  if !p.offeringRequested then { p with offeringRequested := true } else p

/-- `PublisherPortUser::stopOffer()` -/
def stopOffer (p : PublisherPortData Name) : PublisherPortData Name :=
  if p.offeringRequested then { p with offeringRequested := false } else p

end PublisherPortUser

namespace PublisherPortRouDi

/-- `PublisherPortRouDi::tryGetCaProMessage()`. Stopping the offer removes all queues
(`removeAllQueues`). -/
def tryGetCaProMessage (p : PublisherPortData Name) : PublisherPortData Name × Option CaproMessage :=
  if p.offeringRequested ∧ p.offered = false then
    ({ p with offered := true }, some { type := .offer, serviceDescription := p.serviceDescription })
  else if p.offeringRequested = false ∧ p.offered then
    ({ p with offered := false, queues := [] },
      some { type := .stopOffer, serviceDescription := p.serviceDescription })
  else (p, none)

/-- `PublisherPortRouDi::dispatchCaProMessageAndGetPossibleResponse(caProMessage)`: the answer is
always there, `NACK` unless the queue was added or removed. -/
def dispatchCaProMessageAndGetPossibleResponse (maxQueues : ℕ) (p : PublisherPortData Name)
    (caProMessage : CaproMessage) : Except Fatal (PublisherPortData Name × Option CaproMessage) :=
  let responseMessage : CaproMessage := { type := .nack, serviceDescription := p.serviceDescription }
  if p.offered then
    if caProMessage.type = .sub then
      match caProMessage.chunkQueueData with
      | none => .error .nullChunkQueueData
      | some queue =>
        match addQueue maxQueues p.queues queue with
        | .ok queues => .ok ({ p with queues }, some { responseMessage with type := .ack })
        | .error _ => .ok (p, some responseMessage)
    else if caProMessage.type = .unsub then
      match caProMessage.chunkQueueData with
      | none => .error .nullChunkQueueData
      | some queue =>
        match removeQueue p.queues queue with
        | .ok queues => .ok ({ p with queues }, some { responseMessage with type := .ack })
        | .error _ => .ok (p, some responseMessage)
    else .error .caproProtocolError
  else .ok (p, some responseMessage)

end PublisherPortRouDi

/-! ### The subscriber port -/

/-- The message of type `type` about the subscriber's service that carries its queue
(`m_chunkQueueData = &m_chunkReceiverData`). -/
def SubscriberPortData.queueMessage (s : SubscriberPortData Name) (type : CaproMessageType) :
    CaproMessage :=
  { type, serviceDescription := s.serviceDescription, chunkQueueData := some s.uniqueId }

namespace SubscriberPortUser

/-- `SubscriberPortUser::subscribe()`; the receiver's queue that it clears is left out. -/
def subscribe (s : SubscriberPortData Name) : SubscriberPortData Name :=
  if !s.subscribeRequested then { s with subscribeRequested := true } else s

/-- `SubscriberPortUser::unsubscribe()` -/
def unsubscribe (s : SubscriberPortData Name) : SubscriberPortData Name :=
  if s.subscribeRequested then { s with subscribeRequested := false } else s

end SubscriberPortUser

namespace SubscriberPortSingleProducer

/-- `SubscriberPortSingleProducer::tryGetCaProMessage()` -/
def tryGetCaProMessage (s : SubscriberPortData Name) : SubscriberPortData Name × Option CaproMessage :=
  if s.subscribeRequested ∧ s.subscriptionState = .notSubscribed then
    ({ s with subscriptionState := .subscribeRequested }, some (s.queueMessage .sub))
  else if s.subscribeRequested = false ∧ s.subscriptionState = .subscribed then
    ({ s with subscriptionState := .unsubscribeRequested }, some (s.queueMessage .unsub))
  else if s.subscribeRequested = false ∧ s.subscriptionState = .waitForOffer then
    ({ s with subscriptionState := .notSubscribed }, none)
  else (s, none)

/-- `SubscriberPortSingleProducer::dispatchCaProMessageAndGetPossibleResponse(caProMessage)` -/
def dispatchCaProMessageAndGetPossibleResponse (s : SubscriberPortData Name)
    (caProMessage : CaproMessage) : Except Fatal (SubscriberPortData Name × Option CaproMessage) :=
  let currentSubscriptionState := s.subscriptionState
  if caProMessage.type = .offer ∧ currentSubscriptionState = .waitForOffer then
    .ok ({ s with subscriptionState := .subscribeRequested }, some (s.queueMessage .sub))
  else if caProMessage.type = .stopOffer ∧ currentSubscriptionState = .subscribed then
    .ok ({ s with subscriptionState := .waitForOffer }, none)
  else if caProMessage.type = .ack then
    if currentSubscriptionState = .subscribeRequested then
      .ok ({ s with subscriptionState := .subscribed }, none)
    else if currentSubscriptionState = .unsubscribeRequested then
      .ok ({ s with subscriptionState := .notSubscribed }, none)
    else .error .caproProtocolError
  else if caProMessage.type = .nack then
    if currentSubscriptionState = .subscribeRequested then
      .ok ({ s with subscriptionState := .waitForOffer }, none)
    else if currentSubscriptionState = .unsubscribeRequested then
      .ok ({ s with subscriptionState := .notSubscribed }, none)
    else .error .caproProtocolError
  else if (caProMessage.type = .offer ∨ caProMessage.type = .stopOffer) ∧
      currentSubscriptionState = .notSubscribed then
    -- no state change
    .ok (s, none)
  else .error .caproProtocolError

end SubscriberPortSingleProducer

namespace SubscriberPortMultiProducer

/-- `SubscriberPortMultiProducer::tryGetCaProMessage()` -/
def tryGetCaProMessage (s : SubscriberPortData Name) : SubscriberPortData Name × Option CaproMessage :=
  if s.subscribeRequested ∧ s.subscriptionState = .notSubscribed then
    ({ s with subscriptionState := .subscribed }, some (s.queueMessage .sub))
  else if s.subscribeRequested = false ∧ s.subscriptionState = .subscribed then
    ({ s with subscriptionState := .notSubscribed }, some (s.queueMessage .unsub))
  else (s, none)

/-- `SubscriberPortMultiProducer::dispatchCaProMessageAndGetPossibleResponse(caProMessage)` -/
def dispatchCaProMessageAndGetPossibleResponse (s : SubscriberPortData Name)
    (caProMessage : CaproMessage) : Except Fatal (SubscriberPortData Name × Option CaproMessage) :=
  let currentSubscriptionState := s.subscriptionState
  if caProMessage.type = .offer ∧ currentSubscriptionState = .subscribed then
    .ok (s, some (s.queueMessage .sub))
  else if caProMessage.type = .offer ∧ currentSubscriptionState = .notSubscribed then
    .ok (s, none)
  else if caProMessage.type = .ack ∨ caProMessage.type = .nack ∨ caProMessage.type = .stopOffer then
    -- ignored by a subscriber of many producers
    .ok (s, none)
  else .error .caproProtocolError

end SubscriberPortMultiProducer

/-- The build's `iox::build::CommunicationPolicy`: `OneToManyPolicy` makes `SubscriberPortType`
the `SubscriberPortSingleProducer`, `ManyToManyPolicy` (the default) the
`SubscriberPortMultiProducer`. -/
inductive CommunicationPolicy
  | oneToMany
  | manyToMany
  deriving DecidableEq, Repr

namespace SubscriberPortType

/-- `SubscriberPortType::tryGetCaProMessage()` -/
def tryGetCaProMessage : CommunicationPolicy → SubscriberPortData Name →
    SubscriberPortData Name × Option CaproMessage
  | .oneToMany => SubscriberPortSingleProducer.tryGetCaProMessage
  | .manyToMany => SubscriberPortMultiProducer.tryGetCaProMessage

/-- `SubscriberPortType::dispatchCaProMessageAndGetPossibleResponse(caProMessage)` -/
def dispatchCaProMessageAndGetPossibleResponse : CommunicationPolicy → SubscriberPortData Name →
    CaproMessage → Except Fatal (SubscriberPortData Name × Option CaproMessage)
  | .oneToMany => SubscriberPortSingleProducer.dispatchCaProMessageAndGetPossibleResponse
  | .manyToMany => SubscriberPortMultiProducer.dispatchCaProMessageAndGetPossibleResponse

end SubscriberPortType

/-! ### What each call does

One lemma per case of a call, so that the proofs about RouDi never unfold the ports. -/

section Calls

variable {maxQueues q : ℕ} {p : PublisherPortData Name} {s : SubscriberPortData Name}
  {msg : CaproMessage}

namespace PublisherPortRouDi

/-- A port that is not offered answers `NACK` to everything. -/
theorem dispatch_of_not_offered (h : p.offered = false) (msg : CaproMessage) :
    dispatchCaProMessageAndGetPossibleResponse maxQueues p msg =
      .ok (p, some { type := .nack, serviceDescription := p.serviceDescription }) := by
  simp [dispatchCaProMessageAndGetPossibleResponse, h]

theorem dispatch_sub_of_lt (h : p.offered = true) (hsub : msg.type = .sub)
    (hq : msg.chunkQueueData = some q) (hnew : q ∉ p.queues) (hlen : p.queues.length < maxQueues) :
    dispatchCaProMessageAndGetPossibleResponse maxQueues p msg =
      .ok ({ p with queues := p.queues ++ [q] },
        some { type := .ack, serviceDescription := p.serviceDescription }) := by
  simp [dispatchCaProMessageAndGetPossibleResponse, addQueue, h, hsub, hq, hnew, hlen]

theorem dispatch_sub_of_mem (h : p.offered = true) (hsub : msg.type = .sub)
    (hq : msg.chunkQueueData = some q) (hmem : q ∈ p.queues) :
    dispatchCaProMessageAndGetPossibleResponse maxQueues p msg =
      .ok (p, some { type := .ack, serviceDescription := p.serviceDescription }) := by
  have hadd : addQueue maxQueues p.queues q = .ok p.queues := by simp [addQueue, hmem]
  simp only [dispatchCaProMessageAndGetPossibleResponse, if_pos h, if_pos hsub, hq, hadd]

/-- A full queue container refuses a new queue. -/
theorem dispatch_sub_of_full (h : p.offered = true) (hsub : msg.type = .sub)
    (hq : msg.chunkQueueData = some q) (hnew : q ∉ p.queues) (hlen : maxQueues ≤ p.queues.length) :
    dispatchCaProMessageAndGetPossibleResponse maxQueues p msg =
      .ok (p, some { type := .nack, serviceDescription := p.serviceDescription }) := by
  have : ¬p.queues.length < maxQueues := by omega
  simp [dispatchCaProMessageAndGetPossibleResponse, addQueue, h, hsub, hq, hnew, this]

/-- A `SUB` to an offered port: the queue is added if the container has room, and the answer
is `ACK` or `NACK`. -/
theorem dispatch_sub (h : p.offered = true) (hsub : msg.type = .sub)
    (hq : msg.chunkQueueData = some q) :
    ∃ t, (t = .ack ∨ t = .nack) ∧ dispatchCaProMessageAndGetPossibleResponse maxQueues p msg =
      .ok ({ p with queues := addQueues maxQueues p.queues [q] },
        some { type := t, serviceDescription := p.serviceDescription }) := by
  by_cases hmem : q ∈ p.queues
  · refine ⟨.ack, .inl rfl, ?_⟩
    rw [dispatch_sub_of_mem h hsub hq hmem]
    simp [addQueues, hmem]
  · by_cases hlen : p.queues.length < maxQueues
    · refine ⟨.ack, .inl rfl, ?_⟩
      rw [dispatch_sub_of_lt h hsub hq hmem hlen]
      simp [addQueues, hmem, hlen]
    · refine ⟨.nack, .inr rfl, ?_⟩
      rw [dispatch_sub_of_full h hsub hq hmem (by omega)]
      simp [addQueues, hlen]

/-- An `UNSUB` erases the queue; the answer says whether it was there. -/
theorem dispatch_unsub (h : p.offered = true) (hunsub : msg.type = .unsub)
    (hq : msg.chunkQueueData = some q) :
    dispatchCaProMessageAndGetPossibleResponse maxQueues p msg =
      .ok ({ p with queues := p.queues.erase q },
        some ⟨if q ∈ p.queues then .ack else .nack, p.serviceDescription, none⟩) := by
  by_cases hmem : q ∈ p.queues
  · simp [dispatchCaProMessageAndGetPossibleResponse, removeQueue, h, hunsub, hq, hmem]
  · have hremove : removeQueue p.queues q = .error .queueNotInContainer := by
      simp [removeQueue, hmem]
    simp only [dispatchCaProMessageAndGetPossibleResponse, if_pos h, hunsub, hq, hremove,
      List.erase_of_not_mem hmem, if_neg hmem]
    rfl

end PublisherPortRouDi

namespace SubscriberPortMultiProducer

/-- A subscribed subscriber of many producers answers an `OFFER` with its `SUB`. -/
theorem dispatch_offer_of_subscribed (ht : msg.type = .offer)
    (hs : s.subscriptionState = .subscribed) :
    dispatchCaProMessageAndGetPossibleResponse s msg = .ok (s, some (s.queueMessage .sub)) := by
  simp [dispatchCaProMessageAndGetPossibleResponse, ht, hs]

theorem dispatch_offer_of_notSubscribed (ht : msg.type = .offer)
    (hs : s.subscriptionState = .notSubscribed) :
    dispatchCaProMessageAndGetPossibleResponse s msg = .ok (s, none) := by
  simp [dispatchCaProMessageAndGetPossibleResponse, ht, hs]

/-- `ACK`, `NACK` and `STOP_OFFER` change nothing. -/
theorem dispatch_of_ignored (ht : msg.type = .ack ∨ msg.type = .nack ∨ msg.type = .stopOffer) :
    dispatchCaProMessageAndGetPossibleResponse s msg = .ok (s, none) := by
  rcases ht with ht | ht | ht <;> simp [dispatchCaProMessageAndGetPossibleResponse, ht]

end SubscriberPortMultiProducer

end Calls

end Popo

end Iox
