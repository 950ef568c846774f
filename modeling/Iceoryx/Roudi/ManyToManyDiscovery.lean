import Iceoryx.Roudi.PortManager

/-!
# Discovery under the many-to-many policy never ends the program

The default build (`ManyToManyPolicy`) makes every subscriber port a
`SubscriberPortMultiProducer`. Discovery can end the program in five places: a port's dispatch
of a message its table does not expect (`POPO__CAPRO_PROTOCOL_ERROR`), the `IOX_ENFORCE` that
only an `OFFER` is answered, the `IOX_PANIC` on an answer to an `ACK` or a `NACK`, the
`IOX_ENFORCE` of the two destructions, and a `not_null` of a null queue. **None of them is
reached, whatever the users of the ports do and in whatever order** (`run_ok_of_manyToMany`).

## What it rests on

One fact about the subscribers carries the whole proof: a subscriber of many producers is only
ever `NOT_SUBSCRIBED` or `SUBSCRIBED` (`Settled`), since its `tryGetCaProMessage` moves only
between the two and its dispatch changes nothing. In those two states it takes every message a
publisher sends it and answers only an `OFFER`, with a `SUB` that carries its queue; a publisher
answers a `SUB` or an `UNSUB` with an `ACK` or a `NACK`, which the subscriber ignores. The lemmas
go up from one port's dispatch to the loops (with the invariant rules of `Iceoryx.Machine.Visit`),
to each call of the port manager, and to runs. The publishers need no invariant at all.

The same lemmas say what an `UNSUB` does: **destroying a subscribed subscriber erases its queue
from every offered publisher that its message reaches, and changes no other publisher**
(`destroySubscriberPort_erases_queue`); discovery for a subscriber that asks for its
subscription adds its queue to every offered publisher that its `SUB` reaches, as far as the
publisher has room for it (`doDiscoveryForSubscriberPort_adds_queue`); and discovery for a
publisher that asks for its offer gives it the queues of the subscribed subscribers that its
`OFFER` reaches (`doDiscoveryForPublisherPort_adds_queues`), while destroying a publisher only
takes it out of the service registry (`destroyPublisherPort_removes_offer`).
-/

namespace Iox.Roudi.PortManager

open Capro Popo

variable {Name : Type*} {capacity : ℕ} {cfg : PortConfig Name}

/-- The states a subscriber of many producers is ever in. -/
def Settled (s : SubscriberPortData Name) : Prop :=
  s.subscriptionState = .notSubscribed ∨ s.subscriptionState = .subscribed

/-! ### One port -/

section Ports

variable {s : SubscriberPortData Name} {p : PublisherPortData Name} {msg : CaproMessage}

/-- A settled subscriber of many producers takes every message a publisher sends it, stays as it
is, and answers only an `OFFER`, with its `SUB`. -/
theorem multiProducer_dispatch_of_settled (hs : Settled s)
    (ht : msg.type = .offer ∨ msg.type = .stopOffer ∨ msg.type = .ack ∨ msg.type = .nack) :
    ∃ r, SubscriberPortMultiProducer.dispatchCaProMessageAndGetPossibleResponse s msg = .ok (s, r) ∧
      ∀ response, r = some response → msg.type = .offer ∧ response = s.queueMessage .sub := by
  rcases ht with ht | ht | ht | ht
  · rcases hs with hs | hs
    · exact ⟨none, SubscriberPortMultiProducer.dispatch_offer_of_notSubscribed ht hs, by simp⟩
    · refine ⟨_, SubscriberPortMultiProducer.dispatch_offer_of_subscribed ht hs, ?_⟩
      rintro response ⟨⟩
      exact ⟨ht, rfl⟩
  all_goals exact ⟨none, SubscriberPortMultiProducer.dispatch_of_ignored (by simp [ht]), by simp⟩

/-- A publisher answers a `SUB` or an `UNSUB` that carries a queue with an `ACK` or a `NACK`. -/
theorem publisher_dispatch_ok {q maxQueues : ℕ} (ht : msg.type = .sub ∨ msg.type = .unsub)
    (hq : msg.chunkQueueData = some q) :
    ∃ p' t, (t = .ack ∨ t = .nack) ∧
      PublisherPortRouDi.dispatchCaProMessageAndGetPossibleResponse maxQueues p msg =
        .ok (p', some { type := t, serviceDescription := p.serviceDescription }) := by
  cases hoff : p.offered
  · exact ⟨p, .nack, .inr rfl, PublisherPortRouDi.dispatch_of_not_offered hoff msg⟩
  · rcases ht with ht | ht
    · obtain ⟨t, htype, h⟩ := @PublisherPortRouDi.dispatch_sub _ maxQueues q p msg hoff ht hq
      exact ⟨_, t, htype, h⟩
    · refine ⟨_, _, ?_, PublisherPortRouDi.dispatch_unsub hoff ht hq⟩
      split_ifs <;> simp

/-- A subscriber of many producers tells only `SUB` and `UNSUB`, with its queue, and stays
settled. -/
theorem multiProducer_tryGet_of_settled (hs : Settled s) :
    Settled (SubscriberPortMultiProducer.tryGetCaProMessage s).1 ∧
      ∀ m, (SubscriberPortMultiProducer.tryGetCaProMessage s).2 = some m →
        (m.type = .sub ∨ m.type = .unsub) ∧ m.chunkQueueData = some s.uniqueId := by
  unfold SubscriberPortMultiProducer.tryGetCaProMessage
  split_ifs
  · exact ⟨.inr rfl, by rintro m ⟨⟩; exact ⟨.inl rfl, rfl⟩⟩
  · exact ⟨.inl rfl, by rintro m ⟨⟩; exact ⟨.inr rfl, rfl⟩⟩
  · exact ⟨hs, by simp⟩

/-- A subscriber that does not ask for a subscription tells at most an `UNSUB`. -/
theorem multiProducer_tryGet_of_not_requested (h : s.subscribeRequested = false) :
    ∀ m, (SubscriberPortMultiProducer.tryGetCaProMessage s).2 = some m → m.type = .unsub := by
  unfold SubscriberPortMultiProducer.tryGetCaProMessage
  split_ifs with h₁
  · simp [h] at h₁
  · rintro m ⟨⟩
    rfl
  · simp

/-- A publisher tells only `OFFER` and `STOP_OFFER`. -/
theorem publisher_tryGet_type :
    ∀ m, (PublisherPortRouDi.tryGetCaProMessage p).2 = some m →
      m.type = .offer ∨ m.type = .stopOffer := by
  unfold PublisherPortRouDi.tryGetCaProMessage
  split_ifs
  · rintro m ⟨⟩
    exact .inl rfl
  · rintro m ⟨⟩
    exact .inr rfl
  · simp

/-- A publisher that does not ask for an offer tells at most a `STOP_OFFER`. -/
theorem publisher_tryGet_of_not_requested (h : p.offeringRequested = false) :
    ∀ m, (PublisherPortRouDi.tryGetCaProMessage p).2 = some m → m.type = .stopOffer := by
  unfold PublisherPortRouDi.tryGetCaProMessage
  split_ifs with h₁
  · simp [h] at h₁
  · rintro m ⟨⟩
    rfl
  · simp

/-- The user's `stopOffer` withdraws the request and changes nothing else. -/
theorem stopOffer_eq : PublisherPortUser.stopOffer p = { p with offeringRequested := false } := by
  unfold PublisherPortUser.stopOffer
  split_ifs with h
  · rfl
  · cases p
    simp_all

/-- The user's `subscribe` sets the request and changes nothing else. -/
theorem subscribe_eq : SubscriberPortUser.subscribe s = { s with subscribeRequested := true } := by
  unfold SubscriberPortUser.subscribe
  split_ifs with h
  · rfl
  · cases s
    simp_all

/-- The user's `unsubscribe` withdraws the request and changes nothing else. -/
theorem unsubscribe_eq :
    SubscriberPortUser.unsubscribe s = { s with subscribeRequested := false } := by
  unfold SubscriberPortUser.unsubscribe
  split_ifs with h
  · rfl
  · cases s
    simp_all

end Ports

/-! ### Passing messages on -/

section Loops

variable (hpol : cfg.policy = .manyToMany)
include hpol

/-- Passing a publisher's message to one settled subscriber succeeds and leaves the subscriber
as it is. -/
theorem sendToSubscriberPort_of_manyToMany {msg : CaproMessage} {p : PublisherPortData Name}
    {s : SubscriberPortData Name} (hs : Settled s) (ht : msg.type = .offer ∨ msg.type = .stopOffer) :
    ∃ p', sendToSubscriberPort cfg msg p s = .ok (p', s) := by
  unfold sendToSubscriberPort
  by_cases hskip : skipsInterface s.serviceDescription.interfaceSource
    msg.serviceDescription.interfaceSource
  · exact ⟨p, by rw [if_pos hskip]⟩
  rw [if_neg hskip]
  by_cases hcompat : isCompatiblePubSub p s
  swap
  · exact ⟨p, by rw [if_neg hcompat]⟩
  rw [if_pos hcompat]
  obtain ⟨r, hr, hresponse⟩ := multiProducer_dispatch_of_settled hs (by tauto)
  simp only [hpol, SubscriberPortType.dispatchCaProMessageAndGetPossibleResponse, hr, bind,
    Except.bind]
  cases r with
  | none => exact ⟨p, rfl⟩
  | some response =>
    -- the subscriber's `SUB` to an `OFFER`: the publisher's answer is ignored
    obtain ⟨hoffer, rfl⟩ := hresponse response rfl
    obtain ⟨p', t, htype, hp⟩ := @publisher_dispatch_ok _ p (s.queueMessage .sub) s.uniqueId
      cfg.maxQueues (.inl rfl) rfl
    have hignored := @SubscriberPortMultiProducer.dispatch_of_ignored _ s
      { type := t, serviceDescription := p.serviceDescription }
      (by rcases htype with rfl | rfl <;> simp)
    simp only [if_pos hoffer, hp, hignored, Option.isSome_none]
    exact ⟨p', rfl⟩

/-- `sendToAllMatchingSubscriberPorts` succeeds on settled subscribers and leaves them as they
are. -/
theorem sendToAllMatchingSubscriberPorts_of_manyToMany {msg : CaproMessage}
    (ht : msg.type = .offer ∨ msg.type = .stopOffer) (p : PublisherPortData Name)
    {subs : List (SubscriberPortData Name)} (hsubs : ∀ s ∈ subs, Settled s) :
    ∃ p', sendToAllMatchingSubscriberPorts cfg msg p subs = .ok (p', subs) := by
  -- the loop invariant: the subscribers are those the loop started with
  obtain ⟨p', subs', hloop, hsubs'⟩ := @Visit.forEach_inv _ _ _ (sendToSubscriberPort cfg msg)
    (fun _ l ↦ l = subs) (fun p done s todo hl ↦ by
      obtain ⟨p', h⟩ := sendToSubscriberPort_of_manyToMany hpol (p := p)
        (hsubs s (hl ▸ List.mem_append_right done List.mem_cons_self)) ht
      exact ⟨p', s, h, hl⟩) p [] subs rfl
  exact ⟨p', by rw [sendToAllMatchingSubscriberPorts, hloop, ← hsubs']; rfl⟩

/-- Passing a subscriber's message to one publisher succeeds and leaves the subscriber as it
is, in whatever state it is. -/
theorem sendToPublisherPort_of_manyToMany {msg : CaproMessage} {q : ℕ} {s : SubscriberPortData Name}
    (found : Bool) (p : PublisherPortData Name)
    (ht : msg.type = .sub ∨ msg.type = .unsub) (hq : msg.chunkQueueData = some q) :
    ∃ found' p', sendToPublisherPort cfg msg (s, found) p = .ok ((s, found'), p') := by
  unfold sendToPublisherPort
  dsimp only
  by_cases hskip : skipsInterface p.serviceDescription.interfaceSource
    msg.serviceDescription.interfaceSource
  · exact ⟨found, p, by rw [if_pos hskip]⟩
  rw [if_neg hskip]
  by_cases hcompat : isCompatiblePubSub p s
  swap
  · exact ⟨found, p, by rw [if_neg hcompat]⟩
  rw [if_pos hcompat]
  obtain ⟨p', t, htype, hp⟩ := @publisher_dispatch_ok _ p msg q cfg.maxQueues ht hq
  -- the publisher's `ACK` or `NACK` is ignored
  have hignored := @SubscriberPortMultiProducer.dispatch_of_ignored _ s
    { type := t, serviceDescription := p.serviceDescription }
    (by rcases htype with rfl | rfl <;> simp)
  simp only [hp, bind, Except.bind, hpol, SubscriberPortType.dispatchCaProMessageAndGetPossibleResponse,
    hignored, Option.isSome_none]
  exact ⟨true, p', rfl⟩

/-- `sendToAllMatchingPublisherPorts` succeeds and leaves the subscriber as it is. -/
theorem sendToAllMatchingPublisherPorts_of_manyToMany {msg : CaproMessage} {q : ℕ}
    (s : SubscriberPortData Name) (ht : msg.type = .sub ∨ msg.type = .unsub)
    (hq : msg.chunkQueueData = some q) (pubs : List (PublisherPortData Name)) :
    ∃ pubs' found, sendToAllMatchingPublisherPorts cfg msg s pubs = .ok (s, pubs', found) := by
  -- the loop invariant: the subscriber is the one the loop started with
  obtain ⟨⟨s', found⟩, pubs', hloop, hs'⟩ := @Visit.forEach_inv _ _ _ (sendToPublisherPort cfg msg)
    (fun acc _ ↦ acc.1 = s) (fun acc done p todo hacc ↦ by
      obtain ⟨s₀, found₀⟩ := acc
      obtain rfl : s₀ = s := hacc
      obtain ⟨found', p', h⟩ := sendToPublisherPort_of_manyToMany hpol found₀ p ht hq
      exact ⟨(s₀, found'), p', h, rfl⟩) (s, false) [] pubs rfl
  obtain rfl : s' = s := hs'
  exact ⟨pubs', found, by rw [sendToAllMatchingPublisherPorts, hloop]; rfl⟩

end Loops

/-- The invariant of a loop over the subscribers: the visited one is settled, and so are all
after the visit if its result is. -/
theorem settled_visit {done todo : List (SubscriberPortData Name)} {s : SubscriberPortData Name}
    (h : ∀ x ∈ done ++ s :: todo, Settled x) :
    Settled s ∧ ∀ s? : Option (SubscriberPortData Name), (∀ s' ∈ s?, Settled s') →
      ∀ x ∈ done ++ s?.toList ++ todo, Settled x := by
  refine ⟨h s (List.mem_append_right done List.mem_cons_self), fun s? hs? x hx ↦ ?_⟩
  rcases List.mem_append.1 hx with hx | hx
  · rcases List.mem_append.1 hx with hx | hx
    · exact h x (List.mem_append_left _ hx)
    · exact hs? x (by simpa using hx)
  · exact h x (List.mem_append_right done (List.mem_cons_of_mem s hx))

/-- A user's call on one element keeps a property that the call keeps. -/
theorem forall_mem_modify {α : Type*} {P : α → Prop} {f : α → α} (hf : ∀ x, P x → P (f x)) :
    ∀ {l : List α} (i : ℕ), (∀ x ∈ l, P x) → ∀ x ∈ l.modify i f, P x
  | [], _, _ => by simp
  | a :: l, 0, h => by
    simp only [List.modify_zero_cons, List.mem_cons, forall_eq_or_imp]
    exact ⟨hf a (h a List.mem_cons_self), fun x hx ↦ h x (List.mem_cons_of_mem a hx)⟩
  | a :: l, i + 1, h => by
    simp only [List.modify_succ_cons, List.mem_cons, forall_eq_or_imp]
    exact ⟨h a List.mem_cons_self,
      forall_mem_modify hf i (fun x hx ↦ h x (List.mem_cons_of_mem a hx))⟩

/-! ### The calls of the port manager -/

section Calls

variable (hpol : cfg.policy = .manyToMany)
include hpol

variable (pm : PortManager Name capacity)

/-- A publisher's discovery succeeds and leaves the subscribers as they are. -/
theorem doDiscoveryForPublisherPort_of_manyToMany (hsubs : ∀ s ∈ pm.subscribers, Settled s)
    (p : PublisherPortData Name) :
    ∃ pm' p', doDiscoveryForPublisherPort cfg pm p = .ok (pm', p') ∧
      pm'.subscribers = pm.subscribers := by
  unfold doDiscoveryForPublisherPort
  rcases htry : PublisherPortRouDi.tryGetCaProMessage p with ⟨p₁, _ | m⟩
  · exact ⟨pm, p₁, rfl, rfl⟩
  · dsimp only
    cases hreg : updateServiceRegistry pm.serviceRegistry m with
    | none => exact ⟨pm, p₁, rfl, rfl⟩
    | some reg =>
      have ht := publisher_tryGet_type m (by rw [htry])
      obtain ⟨p', hsend⟩ := sendToAllMatchingSubscriberPorts_of_manyToMany hpol ht p₁ hsubs
      simp only [hsend, bind, Except.bind, pure, Except.pure]
      exact ⟨_, p', rfl, rfl⟩

/-- Destroying a publisher succeeds and leaves the subscribers as they are. -/
theorem destroyPublisherPort_of_manyToMany (hsubs : ∀ s ∈ pm.subscribers, Settled s)
    (p : PublisherPortData Name) :
    ∃ pm', destroyPublisherPort cfg pm p = .ok pm' ∧ pm'.subscribers = pm.subscribers := by
  unfold destroyPublisherPort
  rcases htry : PublisherPortRouDi.tryGetCaProMessage (PublisherPortUser.stopOffer p) with
    ⟨p₁, _ | m⟩
  · exact ⟨pm, rfl, rfl⟩
  · -- the user's `stopOffer` leaves nothing to tell but a `STOP_OFFER`
    have hreq : (PublisherPortUser.stopOffer p).offeringRequested = false := by
      rw [stopOffer_eq]
    have ht : m.type = .stopOffer := publisher_tryGet_of_not_requested hreq m (by rw [htry])
    dsimp only
    obtain ⟨p', hsend⟩ := sendToAllMatchingSubscriberPorts_of_manyToMany hpol (.inr ht) p₁ hsubs
    simp only [if_pos ht, hsend, bind, Except.bind, pure, Except.pure]
    exact ⟨_, rfl, rfl⟩

/-- A settled subscriber's discovery succeeds, keeps it settled, and leaves the subscriber list
as it is. -/
theorem doDiscoveryForSubscriberPort_of_manyToMany {s : SubscriberPortData Name} (hs : Settled s) :
    ∃ pm' s', doDiscoveryForSubscriberPort cfg pm s = .ok (pm', s') ∧ Settled s' ∧
      pm'.subscribers = pm.subscribers := by
  obtain ⟨hs₁, hmsg⟩ := multiProducer_tryGet_of_settled hs
  unfold doDiscoveryForSubscriberPort
  simp only [hpol, SubscriberPortType.tryGetCaProMessage,
    SubscriberPortType.dispatchCaProMessageAndGetPossibleResponse]
  rcases htry : SubscriberPortMultiProducer.tryGetCaProMessage s with ⟨s₁, _ | m⟩
  · rw [htry] at hs₁
    exact ⟨pm, s₁, rfl, hs₁, rfl⟩
  · rw [htry] at hs₁ hmsg
    obtain ⟨ht, hq⟩ := hmsg m rfl
    obtain ⟨pubs', found, hsend⟩ := sendToAllMatchingPublisherPorts_of_manyToMany hpol s₁ ht hq
      pm.publishers
    dsimp only
    simp only [if_pos ht, hsend, bind, Except.bind]
    cases found
    · -- no publisher matched: the subscriber is told `NACK`, which it ignores
      rw [SubscriberPortMultiProducer.dispatch_of_ignored (.inr (.inl rfl))]
      exact ⟨_, s₁, rfl, hs₁, rfl⟩
    · exact ⟨_, s₁, rfl, hs₁, rfl⟩

/-- Destroying a settled subscriber succeeds and leaves the subscriber list as it is. -/
theorem destroySubscriberPort_of_manyToMany {s : SubscriberPortData Name} (hs : Settled s) :
    ∃ pm', destroySubscriberPort cfg pm s = .ok pm' ∧ pm'.subscribers = pm.subscribers := by
  have hs' : Settled (SubscriberPortUser.unsubscribe s) := by
    rw [unsubscribe_eq]
    exact hs
  have hreq : (SubscriberPortUser.unsubscribe s).subscribeRequested = false := by
    rw [unsubscribe_eq]
  obtain ⟨hs₁, hmsg⟩ := multiProducer_tryGet_of_settled hs'
  unfold destroySubscriberPort
  simp only [hpol, SubscriberPortType.tryGetCaProMessage]
  rcases htry : SubscriberPortMultiProducer.tryGetCaProMessage (SubscriberPortUser.unsubscribe s)
    with ⟨s₁, _ | m⟩
  · exact ⟨pm, rfl, rfl⟩
  · rw [htry] at hs₁ hmsg
    have ht : m.type = .unsub := multiProducer_tryGet_of_not_requested hreq m (by rw [htry])
    obtain ⟨pubs', found, hsend⟩ := sendToAllMatchingPublisherPorts_of_manyToMany hpol s₁
      (.inr ht) (hmsg m rfl).2 pm.publishers
    simp only [if_pos ht, hsend, bind, Except.bind, pure, Except.pure]
    exact ⟨_, rfl, rfl⟩

/-- `handlePublisherPorts` succeeds and leaves the subscribers as they are. -/
theorem handlePublisherPorts_of_manyToMany (hsubs : ∀ s ∈ pm.subscribers, Settled s) :
    ∃ pm', handlePublisherPorts cfg pm = .ok pm' ∧ pm'.subscribers = pm.subscribers := by
  -- the loop invariant: the subscribers are those the loop started with
  obtain ⟨pm', kept, hloop, hsubs'⟩ := @Visit.filterEach_inv _ _ _ (handlePublisherPort cfg)
    (fun pm' _ ↦ pm'.subscribers = pm.subscribers)
    (fun pm₁ done p todo h₁ ↦ by
      obtain ⟨pm₂, p₂, hdisc, h₂⟩ := doDiscoveryForPublisherPort_of_manyToMany hpol pm₁
        (h₁ ▸ hsubs) p
      unfold handlePublisherPort
      simp only [hdisc, bind, Except.bind]
      split_ifs
      · obtain ⟨pm₃, hdestroy, h₃⟩ := destroyPublisherPort_of_manyToMany hpol pm₂
          ((h₂.trans h₁) ▸ hsubs) p₂
        exact ⟨pm₃, none, by rw [hdestroy]; rfl, h₃.trans (h₂.trans h₁)⟩
      · exact ⟨pm₂, some p₂, rfl, h₂.trans h₁⟩) pm [] pm.publishers rfl
  exact ⟨{ pm' with publishers := kept }, by rw [handlePublisherPorts, hloop]; rfl, hsubs'⟩

/-- `handleSubscriberPorts` succeeds on settled subscribers and keeps them settled. -/
theorem handleSubscriberPorts_of_manyToMany (hsubs : ∀ s ∈ pm.subscribers, Settled s) :
    ∃ pm', handleSubscriberPorts cfg pm = .ok pm' ∧ ∀ s ∈ pm'.subscribers, Settled s := by
  -- the loop invariant: every subscriber, visited or not, is settled
  obtain ⟨pm', kept, hloop, hkept⟩ := @Visit.filterEach_inv _ _ _ (handleSubscriberPort cfg)
    (fun _ l ↦ ∀ s ∈ l, Settled s)
    (fun pm₁ done s todo h₁ ↦ by
      obtain ⟨hs, hvisit⟩ := settled_visit h₁
      obtain ⟨pm₂, s₂, hdisc, hs₂, -⟩ := doDiscoveryForSubscriberPort_of_manyToMany hpol pm₁ hs
      unfold handleSubscriberPort
      simp only [hdisc, bind, Except.bind]
      split_ifs
      · obtain ⟨pm₃, hdestroy, -⟩ := destroySubscriberPort_of_manyToMany hpol pm₂ hs₂
        exact ⟨pm₃, none, by rw [hdestroy]; rfl, hvisit none (by simp)⟩
      · exact ⟨pm₂, some s₂, rfl, hvisit (some s₂) (by simpa using hs₂)⟩) pm [] pm.subscribers
    hsubs
  exact ⟨{ pm' with subscribers := kept }, by rw [handleSubscriberPorts, hloop]; rfl, hkept⟩

/-- A round of discovery succeeds on settled subscribers and keeps them settled. -/
theorem doDiscovery_of_manyToMany (hsubs : ∀ s ∈ pm.subscribers, Settled s) :
    ∃ pm', doDiscovery cfg pm = .ok pm' ∧ ∀ s ∈ pm'.subscribers, Settled s := by
  obtain ⟨pm₁, h₁, hsubs₁⟩ := handlePublisherPorts_of_manyToMany hpol pm hsubs
  obtain ⟨pm₂, h₂, hsubs₂⟩ := handleSubscriberPorts_of_manyToMany hpol pm₁ (hsubs₁ ▸ hsubs)
  refine ⟨pm₂, ?_, hsubs₂⟩
  simp only [doDiscovery, h₁, bind, Except.bind]
  exact h₂

/-- Adding a publisher port succeeds and leaves the subscribers as they are. -/
theorem addPublisherPort_of_manyToMany (hsubs : ∀ s ∈ pm.subscribers, Settled s)
    (service : ServiceDescription) (options : PublisherOptions) (runtimeName : Name) (pos : ℕ) :
    ∃ pm' r, acquirePublisherPortData.addPublisherPort cfg service options runtimeName pos pm =
      .ok (pm', r) ∧ pm'.subscribers = pm.subscribers := by
  unfold acquirePublisherPortData.addPublisherPort
  split_ifs
  · obtain ⟨pm₁, p₁, hdisc, h₁⟩ := doDiscoveryForPublisherPort_of_manyToMany hpol
      { pm with globalIDCounter := pm.globalIDCounter + 1 } hsubs
      (PublisherPortData.new service runtimeName pm.globalIDCounter options)
    simp only [hdisc, bind, Except.bind, pure, Except.pure]
    exact ⟨_, _, rfl, h₁⟩
  · exact ⟨pm, _, rfl, rfl⟩

variable [DecidableEq Name]

/-- Acquiring a publisher port succeeds, whatever it answers, and leaves the subscribers as they
are: the many-to-many policy checks no uniqueness. -/
theorem acquirePublisherPortData_of_manyToMany (hsubs : ∀ s ∈ pm.subscribers, Settled s)
    (service : ServiceDescription) (options : PublisherOptions) (runtimeName : Name) (pos : ℕ) :
    ∃ pm' r, acquirePublisherPortData cfg pm service options runtimeName pos = .ok (pm', r) ∧
      pm'.subscribers = pm.subscribers := by
  unfold acquirePublisherPortData
  simp only [hpol, bind, Except.bind, Option.isSome_none, Bool.false_eq_true, if_false]
  split_ifs
  · -- RouDi's own port: its service is recorded as internal first
    exact addPublisherPort_of_manyToMany hpol
      { pm with internalServices := pm.internalServices ++ [service] } hsubs service options
      runtimeName pos
  · exact addPublisherPort_of_manyToMany hpol pm hsubs service options runtimeName pos
  · exact ⟨pm, _, rfl, rfl⟩
  · exact addPublisherPort_of_manyToMany hpol pm hsubs service options runtimeName pos

omit [DecidableEq Name] in
/-- Acquiring a subscriber port succeeds, whatever it answers, and the new port is settled. -/
theorem acquireSubscriberPortData_of_manyToMany (hsubs : ∀ s ∈ pm.subscribers, Settled s)
    (service : ServiceDescription) (options : SubscriberOptions) (runtimeName : Name) (pos : ℕ) :
    ∃ pm' r, acquireSubscriberPortData cfg pm service options runtimeName pos = .ok (pm', r) ∧
      ∀ s ∈ pm'.subscribers, Settled s := by
  unfold acquireSubscriberPortData
  split_ifs
  · obtain ⟨pm₁, s₁, hdisc, hs₁, -⟩ := doDiscoveryForSubscriberPort_of_manyToMany hpol
      { pm with globalIDCounter := pm.globalIDCounter + 1 }
      (s := SubscriberPortData.new service runtimeName pm.globalIDCounter options) (.inl rfl)
    simp only [hdisc, bind, Except.bind, pure, Except.pure]
    refine ⟨_, _, rfl, fun x hx ↦ ?_⟩
    rcases List.eq_or_mem_of_mem_insertIdx hx with rfl | hx
    · exact hs₁
    · exact hsubs x hx
  · exact ⟨pm, _, rfl, hsubs⟩

/-- Deleting the ports of a process succeeds and keeps the subscribers settled. -/
theorem deletePortsOfProcess_of_manyToMany (hsubs : ∀ s ∈ pm.subscribers, Settled s)
    (runtimeName : Name) :
    ∃ pm', deletePortsOfProcess cfg pm runtimeName = .ok pm' ∧ ∀ s ∈ pm'.subscribers, Settled s := by
  -- the publishers' loop leaves the subscribers as they are
  obtain ⟨pm₁, kept₁, hloop₁, h₁⟩ := @Visit.filterEach_inv _ _ _
    (deletePublisherPortOf cfg runtimeName) (fun pm' _ ↦ pm'.subscribers = pm.subscribers)
    (fun pm₁ done p todo h₁ ↦ by
      unfold deletePublisherPortOf
      split_ifs
      · obtain ⟨pm₂, hdestroy, h₂⟩ := destroyPublisherPort_of_manyToMany hpol pm₁ (h₁ ▸ hsubs) p
        exact ⟨pm₂, none, by rw [hdestroy]; rfl, h₂.trans h₁⟩
      · exact ⟨pm₁, some p, rfl, h₁⟩) pm [] pm.publishers rfl
  -- the subscribers' loop keeps them settled
  obtain ⟨pm₂, kept₂, hloop₂, h₂⟩ := @Visit.filterEach_inv _ _ _
    (deleteSubscriberPortOf cfg runtimeName) (fun _ l ↦ ∀ s ∈ l, Settled s)
    (fun pm₂ done s todo h₂ ↦ by
      obtain ⟨hs, hvisit⟩ := settled_visit h₂
      unfold deleteSubscriberPortOf
      split_ifs
      · obtain ⟨pm₃, hdestroy, -⟩ := destroySubscriberPort_of_manyToMany hpol pm₂ hs
        exact ⟨pm₃, none, by rw [hdestroy]; rfl, hvisit none (by simp)⟩
      · exact ⟨pm₂, some s, rfl, hvisit (some s) (by simpa using hs)⟩)
    { pm₁ with publishers := kept₁ } [] pm₁.subscribers (h₁ ▸ hsubs)
  refine ⟨{ pm₂ with subscribers := kept₂ }, ?_, h₂⟩
  simp only [deletePortsOfProcess, hloop₁, bind, Except.bind]
  rw [hloop₂]
  rfl

/-- **Every action succeeds on settled subscribers and keeps them settled.** -/
theorem step_of_manyToMany (hsubs : ∀ s ∈ pm.subscribers, Settled s) (a : Action Name) :
    ∃ pm', step cfg pm a = .ok pm' ∧ ∀ s ∈ pm'.subscribers, Settled s := by
  cases a with
  | acquirePublisherPortData service options runtimeName pos =>
    obtain ⟨pm', r, h, h'⟩ :=
      acquirePublisherPortData_of_manyToMany hpol pm hsubs service options runtimeName pos
    exact ⟨pm', by rw [step, h]; rfl, h' ▸ hsubs⟩
  | acquireSubscriberPortData service options runtimeName pos =>
    obtain ⟨pm', r, h, h'⟩ :=
      acquireSubscriberPortData_of_manyToMany hpol pm hsubs service options runtimeName pos
    exact ⟨pm', by rw [step, h]; rfl, h'⟩
  | offer i => exact ⟨_, rfl, hsubs⟩
  | stopOffer i => exact ⟨_, rfl, hsubs⟩
  | destroyPublisher i => exact ⟨_, rfl, hsubs⟩
  -- the users' calls on a subscriber set its flags, never its state
  | subscribe i =>
    refine ⟨_, rfl, forall_mem_modify (fun x hx ↦ ?_) i hsubs⟩
    rw [subscribe_eq]
    exact hx
  | unsubscribe i =>
    refine ⟨_, rfl, forall_mem_modify (fun x hx ↦ ?_) i hsubs⟩
    rw [unsubscribe_eq]
    exact hx
  | destroySubscriber i =>
    refine ⟨_, rfl, forall_mem_modify (fun x hx ↦ ?_) i hsubs⟩
    exact hx
  | doDiscovery => exact doDiscovery_of_manyToMany hpol pm hsubs
  | deletePortsOfProcess runtimeName =>
    exact deletePortsOfProcess_of_manyToMany hpol pm hsubs runtimeName

/-- Every run from settled subscribers runs to its end. -/
theorem run_ok_of_settled : ∀ (actions : List (Action Name)) {pm : PortManager Name capacity},
    (∀ s ∈ pm.subscribers, Settled s) → ∃ pm', run cfg pm actions = .ok pm'
  | [], pm, _ => ⟨pm, rfl⟩
  | a :: actions, _, hsubs => by
    obtain ⟨pm₁, h₁, hsubs₁⟩ := step_of_manyToMany hpol _ hsubs a
    obtain ⟨pm₂, h₂⟩ := run_ok_of_settled actions hsubs₁
    refine ⟨pm₂, ?_⟩
    simp only [run, List.foldlM_cons, h₁, bind, Except.bind]
    exact h₂

end Calls

/-! ### Subscribing and unsubscribing -/

/-- The test of `sendToAllMatchingPublisherPorts` that lets a subscriber's message reach a
publisher. -/
def reaches (s : SubscriberPortData Name) (p : PublisherPortData Name) : Bool :=
  !skipsInterface p.serviceDescription.interfaceSource s.serviceDescription.interfaceSource &&
    isCompatiblePubSub p s

/-- What an `UNSUB` of the subscriber does to a publisher. -/
def eraseQueueOf (s : SubscriberPortData Name) (p : PublisherPortData Name) :
    PublisherPortData Name :=
  if reaches s p && p.offered then { p with queues := p.queues.erase s.uniqueId } else p

/-- What a `SUB` of the subscriber does to a publisher. -/
def addQueueOf (maxQueues : ℕ) (s : SubscriberPortData Name) (p : PublisherPortData Name) :
    PublisherPortData Name :=
  if reaches s p && p.offered then { p with queues := addQueues maxQueues p.queues [s.uniqueId] }
  else p

section Subscriptions

variable (hpol : cfg.policy = .manyToMany)
include hpol

/-- A message of the subscriber's own queue reaches a publisher as the loop's test says; an
offered publisher it reaches applies `upd` and answers `ACK` or `NACK`, which a subscriber of many
producers ignores. -/
theorem sendToPublisherPort_queueMessage (s : SubscriberPortData Name) (t : CaproMessageType)
    (upd : PublisherPortData Name → PublisherPortData Name)
    (hdispatch : ∀ p : PublisherPortData Name, p.offered = true → ∃ r : CaproMessage,
      (r.type = .ack ∨ r.type = .nack) ∧
      PublisherPortRouDi.dispatchCaProMessageAndGetPossibleResponse cfg.maxQueues p
        (s.queueMessage t) = .ok (upd p, some r))
    (found : Bool) (p : PublisherPortData Name) :
    sendToPublisherPort cfg (s.queueMessage t) (s, found) p =
      .ok ((s, found || reaches s p), if reaches s p && p.offered then upd p else p) := by
  unfold sendToPublisherPort reaches
  dsimp only
  by_cases hskip : skipsInterface p.serviceDescription.interfaceSource
    (s.queueMessage t).serviceDescription.interfaceSource
  · rw [if_pos hskip]
    simp [SubscriberPortData.queueMessage] at hskip
    simp [hskip]
  rw [if_neg hskip]
  have hskip' : skipsInterface p.serviceDescription.interfaceSource
      s.serviceDescription.interfaceSource = false := by simpa [SubscriberPortData.queueMessage] using hskip
  by_cases hcompat : isCompatiblePubSub p s
  swap
  · rw [if_neg hcompat]
    simp [hcompat]
  rw [if_pos hcompat]
  -- the publisher answers `NACK` if it does not offer, and `ACK` or `NACK` after `upd` if it does;
  -- a subscriber of many producers ignores both
  cases hoff : p.offered
  · rw [PublisherPortRouDi.dispatch_of_not_offered hoff]
    have hignored := @SubscriberPortMultiProducer.dispatch_of_ignored _ s
      { type := .nack, serviceDescription := p.serviceDescription } (.inr (.inl rfl))
    simp only [bind, Except.bind, hpol, SubscriberPortType.dispatchCaProMessageAndGetPossibleResponse,
      hignored, Option.isSome_none]
    simp [hskip', hcompat]
  · obtain ⟨r, hr, hdisp⟩ := hdispatch p hoff
    rw [hdisp]
    have hignored := @SubscriberPortMultiProducer.dispatch_of_ignored _ s r
      (hr.elim .inl (fun h ↦ .inr (.inl h)))
    simp only [bind, Except.bind, hpol, SubscriberPortType.dispatchCaProMessageAndGetPossibleResponse,
      hignored, Option.isSome_none]
    simp [hskip', hcompat]

/-- Such a message passed to every publisher: the subscriber stays as it is, and the loop says
whether the message reached a publisher. -/
theorem sendToAllMatchingPublisherPorts_queueMessage (s : SubscriberPortData Name)
    (t : CaproMessageType) (upd : PublisherPortData Name → PublisherPortData Name)
    (hdispatch : ∀ p : PublisherPortData Name, p.offered = true → ∃ r : CaproMessage,
      (r.type = .ack ∨ r.type = .nack) ∧
      PublisherPortRouDi.dispatchCaProMessageAndGetPossibleResponse cfg.maxQueues p
        (s.queueMessage t) = .ok (upd p, some r))
    (pubs : List (PublisherPortData Name)) :
    sendToAllMatchingPublisherPorts cfg (s.queueMessage t) s pubs =
      .ok (s, pubs.map (fun p ↦ if reaches s p && p.offered then upd p else p),
        pubs.any (reaches s)) := by
  -- the loop over the publishers, from any value of `publisherFound`
  have hloop : ∀ (found : Bool) (pubs : List (PublisherPortData Name)),
      Visit.forEach (sendToPublisherPort cfg (s.queueMessage t)) (s, found) pubs =
        .ok ((s, found || pubs.any (reaches s)),
          pubs.map (fun p ↦ if reaches s p && p.offered then upd p else p)) := by
    intro found pubs
    induction pubs generalizing found with
    | nil => simp
    | cons p pubs ih =>
      rw [Visit.forEach_cons_of_ok
        (sendToPublisherPort_queueMessage hpol s t upd hdispatch found p), ih]
      simp only [List.any_cons, List.map_cons, Bool.or_assoc]
      rfl
  rw [sendToAllMatchingPublisherPorts, hloop]
  simp [bind, Except.bind, pure, Except.pure]

/-- An `UNSUB` passed to every publisher erases the subscriber's queue from each offered one it
reaches. -/
theorem sendToAllMatchingPublisherPorts_unsub (s : SubscriberPortData Name)
    (pubs : List (PublisherPortData Name)) :
    sendToAllMatchingPublisherPorts cfg (s.queueMessage .unsub) s pubs =
      .ok (s, pubs.map (eraseQueueOf s), pubs.any (reaches s)) := by
  refine sendToAllMatchingPublisherPorts_queueMessage hpol s .unsub
    (fun p ↦ { p with queues := p.queues.erase s.uniqueId }) (fun p hoff ↦ ?_) pubs
  exact ⟨_, by split_ifs <;> simp, PublisherPortRouDi.dispatch_unsub hoff rfl rfl⟩

/-- A `SUB` passed to every publisher adds the subscriber's queue to each offered one it reaches,
as far as the publisher's room for queues allows. -/
theorem sendToAllMatchingPublisherPorts_sub (s : SubscriberPortData Name)
    (pubs : List (PublisherPortData Name)) :
    sendToAllMatchingPublisherPorts cfg (s.queueMessage .sub) s pubs =
      .ok (s, pubs.map (addQueueOf cfg.maxQueues s), pubs.any (reaches s)) := by
  refine sendToAllMatchingPublisherPorts_queueMessage hpol s .sub _ (fun p hoff ↦ ?_) pubs
  obtain ⟨t, ht, hdisp⟩ :=
    @PublisherPortRouDi.dispatch_sub _ cfg.maxQueues s.uniqueId p (s.queueMessage .sub) hoff rfl rfl
  exact ⟨_, ht, hdisp⟩

omit hpol in
/-- A subscriber of many producers that no longer asks for its subscription tells its
`UNSUB`. -/
theorem multiProducer_tryGet_of_unsubscribed {s : SubscriberPortData Name}
    (hreq : s.subscribeRequested = false) (hs : s.subscriptionState = .subscribed) :
    SubscriberPortMultiProducer.tryGetCaProMessage s =
      ({ s with subscriptionState := .notSubscribed }, some (s.queueMessage .unsub)) := by
  simp [SubscriberPortMultiProducer.tryGetCaProMessage, hreq, hs]

omit hpol in
/-- A subscriber of many producers that asks for its subscription tells its `SUB` and counts
itself subscribed at once. -/
theorem multiProducer_tryGet_of_requested {s : SubscriberPortData Name}
    (hreq : s.subscribeRequested = true) (hs : s.subscriptionState = .notSubscribed) :
    SubscriberPortMultiProducer.tryGetCaProMessage s =
      ({ s with subscriptionState := .subscribed }, some (s.queueMessage .sub)) := by
  simp [SubscriberPortMultiProducer.tryGetCaProMessage, hreq, hs]

/-- **Destroying a subscribed subscriber erases its queue** from every offered publisher its
`UNSUB` reaches, and changes nothing else. -/
theorem destroySubscriberPort_erases_queue [DecidableEq Name] (pm : PortManager Name capacity)
    (s : SubscriberPortData Name) (hs : s.subscriptionState = .subscribed) :
    destroySubscriberPort cfg pm s =
      .ok { pm with publishers := pm.publishers.map (eraseQueueOf s) } := by
  have hsend := sendToAllMatchingPublisherPorts_unsub hpol
    { s with subscribeRequested := false, subscriptionState := .notSubscribed } pm.publishers
  unfold destroySubscriberPort
  -- the user's `unsubscribe` changes only the request flag, which `eraseQueueOf` does not read
  rw [unsubscribe_eq]
  simp only [hpol, SubscriberPortType.tryGetCaProMessage,
    multiProducer_tryGet_of_unsubscribed (s := { s with subscribeRequested := false }) rfl hs]
  erw [hsend]
  simp only [bind, Except.bind, pure, Except.pure]
  rfl

/-- **Discovery for a subscriber that asks for its subscription adds its queue** to every offered
publisher its `SUB` reaches, and changes nothing else: the subscriber is subscribed, whether a
publisher answered or not. -/
theorem doDiscoveryForSubscriberPort_adds_queue (pm : PortManager Name capacity)
    (s : SubscriberPortData Name) (hreq : s.subscribeRequested = true)
    (hs : s.subscriptionState = .notSubscribed) :
    doDiscoveryForSubscriberPort cfg pm s =
      .ok ({ pm with publishers := pm.publishers.map (addQueueOf cfg.maxQueues s) },
        { s with subscriptionState := .subscribed }) := by
  have hsend := sendToAllMatchingPublisherPorts_sub hpol
    { s with subscriptionState := .subscribed } pm.publishers
  -- the `SUB` is told before the subscriber's state changes, which `addQueueOf` does not read
  have hadd : addQueueOf cfg.maxQueues { s with subscriptionState := .subscribed } =
      addQueueOf cfg.maxQueues s := rfl
  rw [hadd] at hsend
  unfold doDiscoveryForSubscriberPort
  simp only [hpol, SubscriberPortType.tryGetCaProMessage, multiProducer_tryGet_of_requested hreq hs]
  rw [if_pos (.inl rfl)]
  erw [hsend]
  -- with no publisher found, the `NACK` the subscriber then gets is ignored
  have hignored := @SubscriberPortMultiProducer.dispatch_of_ignored _
    { s with subscriptionState := .subscribed }
    { type := .nack, serviceDescription := s.serviceDescription } (.inr (.inl rfl))
  cases pm.publishers.any (reaches { s with subscriptionState := .subscribed }) <;>
    simp [bind, Except.bind,
      SubscriberPortType.dispatchCaProMessageAndGetPossibleResponse, hignored]

end Subscriptions

theorem destroySubscriberPort_erases_queue_of_radar :
    let radar : ServiceDescription :=
      ⟨IoxString.truncateWithCount (some "Radar".toList) 5,
        IoxString.truncateWithCount (some "FrontLeft".toList) 9,
        IoxString.truncateWithCount (some "Objects".toList) 7, ⟨#[0, 0, 0, 0], rfl⟩, .worldwide,
        .internal⟩
    let sub : SubscriberPortData ℕ :=
      { SubscriberPortData.new radar 2 2 {} with subscriptionState := .subscribed }
    let pm : PortManager ℕ 8 :=
      { (new : PortManager ℕ 8) with
        publishers := [{ PublisherPortData.new radar 1 1 {} with offered := true, queues := [2] }]
        subscribers := [sub] }
    destroySubscriberPort ⟨.manyToMany, 4, 4, 1, 2, 0⟩ pm sub =
      .ok { pm with publishers := pm.publishers.map (eraseQueueOf sub) } :=
  destroySubscriberPort_erases_queue rfl _ _ rfl


theorem doDiscoveryForSubscriberPort_adds_queue_of_radar :
    let radar : ServiceDescription :=
      ⟨IoxString.truncateWithCount (some "Radar".toList) 5,
        IoxString.truncateWithCount (some "FrontLeft".toList) 9,
        IoxString.truncateWithCount (some "Objects".toList) 7, ⟨#[0, 0, 0, 0], rfl⟩, .worldwide,
        .internal⟩
    let sub : SubscriberPortData ℕ :=
      { SubscriberPortData.new radar 2 2 {} with subscribeRequested := true }
    let pm : PortManager ℕ 8 :=
      { (new : PortManager ℕ 8) with
        publishers := [{ PublisherPortData.new radar 1 1 {} with offered := true }]
        subscribers := [sub] }
    doDiscoveryForSubscriberPort ⟨.manyToMany, 4, 4, 1, 2, 0⟩ pm sub =
      .ok ({ pm with publishers := pm.publishers.map (addQueueOf 1 sub) },
        { sub with subscriptionState := .subscribed }) :=
  doDiscoveryForSubscriberPort_adds_queue rfl _ _ rfl rfl

/-! ### Offering -/

/-- The test of `sendToAllMatchingSubscriberPorts` that lets a publisher's message reach a
subscriber. -/
def offerReaches (p : PublisherPortData Name) (s : SubscriberPortData Name) : Bool :=
  !skipsInterface s.serviceDescription.interfaceSource p.serviceDescription.interfaceSource &&
    isCompatiblePubSub p s

/-- The queues that an `OFFER` of the publisher collects: those of the subscribed subscribers it
reaches, in the order of the subscriber list. -/
def offeredQueues (p : PublisherPortData Name) (subs : List (SubscriberPortData Name)) : List ℕ :=
  (subs.filter fun s ↦ offerReaches p s && s.subscriptionState == .subscribed).map (·.uniqueId)

/-- `addQueues` adds its queues one at a time. -/
theorem addQueues_append (maxQueues : ℕ) (queues qs qs' : List ℕ) :
    addQueues maxQueues queues (qs ++ qs') =
      addQueues maxQueues (addQueues maxQueues queues qs) qs' := by
  induction qs generalizing queues with
  | nil => rfl
  | cons q qs ih => exact ih _

/-- The queues of a list of subscribers, one subscriber at a time. -/
theorem offeredQueues_cons (p : PublisherPortData Name) (s : SubscriberPortData Name)
    (subs : List (SubscriberPortData Name)) :
    offeredQueues p (s :: subs) = offeredQueues p [s] ++ offeredQueues p subs := by
  unfold offeredQueues
  rw [← List.map_append, ← List.filter_append]
  rfl

section Offer

variable (hpol : cfg.policy = .manyToMany)
include hpol

/-- An `OFFER` passed to one settled subscriber adds the subscriber's queue if it is subscribed and
the message reaches it, and leaves the subscriber as it is. -/
theorem sendToSubscriberPort_offer {p : PublisherPortData Name} (hoff : p.offered = true)
    (qs : List ℕ) {s : SubscriberPortData Name} (hs : Settled s) :
    sendToSubscriberPort cfg { type := .offer, serviceDescription := p.serviceDescription }
        { p with queues := qs } s =
      .ok ({ p with queues := addQueues cfg.maxQueues qs (offeredQueues p [s]) }, s) := by
  unfold sendToSubscriberPort
  by_cases hskip : skipsInterface s.serviceDescription.interfaceSource
    p.serviceDescription.interfaceSource
  · rw [if_pos hskip]
    simp [offeredQueues, offerReaches, hskip, addQueues]
  rw [if_neg hskip]
  have hcompat' : isCompatiblePubSub { p with queues := qs } s = isCompatiblePubSub p s := rfl
  by_cases hcompat : isCompatiblePubSub p s
  swap
  · rw [if_neg (hcompat' ▸ hcompat)]
    simp [offeredQueues, offerReaches, hcompat, addQueues]
  rw [if_pos (hcompat' ▸ hcompat)]
  -- a subscriber that is not subscribed takes the `OFFER` silently; a subscribed one answers
  -- with its `SUB`, which the publisher answers with an `ACK` or a `NACK` that it ignores
  rcases hs with hs | hs
  · simp only [hpol, SubscriberPortType.dispatchCaProMessageAndGetPossibleResponse,
      @SubscriberPortMultiProducer.dispatch_offer_of_notSubscribed _ s
        { type := .offer, serviceDescription := p.serviceDescription } rfl hs, bind, Except.bind]
    simp [offeredQueues, hs, addQueues]
  · obtain ⟨t, ht, hdisp⟩ := @PublisherPortRouDi.dispatch_sub _ cfg.maxQueues s.uniqueId
      { p with queues := qs } (s.queueMessage .sub) hoff rfl rfl
    have hignored := @SubscriberPortMultiProducer.dispatch_of_ignored _ s
      { type := t, serviceDescription := p.serviceDescription } (ht.elim .inl (fun h ↦ .inr (.inl h)))
    simp only [hpol, SubscriberPortType.dispatchCaProMessageAndGetPossibleResponse,
      @SubscriberPortMultiProducer.dispatch_offer_of_subscribed _ s
        { type := .offer, serviceDescription := p.serviceDescription } rfl hs, bind, Except.bind,
      ↓reduceIte, hdisp, hignored, Option.isSome_none]
    simp [offeredQueues, offerReaches, hs, hskip, hcompat]

/-- An `OFFER` passed to settled subscribers adds their queues one at a time; the induction is on
the subscribers, from any queue container. -/
theorem sendToAllMatchingSubscriberPorts_offer {p : PublisherPortData Name}
    (hoff : p.offered = true) :
    ∀ (qs : List ℕ) (subs : List (SubscriberPortData Name)), (∀ s ∈ subs, Settled s) →
      sendToAllMatchingSubscriberPorts cfg { type := .offer, serviceDescription := p.serviceDescription }
          { p with queues := qs } subs =
        .ok ({ p with queues := addQueues cfg.maxQueues qs (offeredQueues p subs) }, subs)
  | qs, [], _ => rfl
  | qs, s :: subs, hsubs => by
    have ih := sendToAllMatchingSubscriberPorts_offer hoff
      (addQueues cfg.maxQueues qs (offeredQueues p [s])) subs (fun s' h ↦ hsubs s' (.tail _ h))
    rw [sendToAllMatchingSubscriberPorts] at ih ⊢
    rw [Visit.forEach_cons_of_ok (sendToSubscriberPort_offer hpol hoff qs (hsubs s (.head _))), ih,
      offeredQueues_cons p s subs, addQueues_append cfg.maxQueues qs]
    rfl

/-- **Discovery for a publisher that asks for its offer connects the subscribed subscribers**: the
publisher offers, enters the registry, and holds the queues of the subscribed subscribers that its
`OFFER` reaches, as far as it has room for them; the subscribers stay as they were. -/
theorem doDiscoveryForPublisherPort_adds_queues (pm : PortManager Name capacity)
    (p : PublisherPortData Name) (hreq : p.offeringRequested = true) (hoff : p.offered = false)
    (hsubs : ∀ s ∈ pm.subscribers, Settled s) :
    doDiscoveryForPublisherPort cfg pm p =
      .ok ({ pm with serviceRegistry := (pm.serviceRegistry.addPublisher p.serviceDescription).1 },
        { p with
          offered := true
          queues := addQueues cfg.maxQueues p.queues (offeredQueues p pm.subscribers) }) := by
  have htry : PublisherPortRouDi.tryGetCaProMessage p =
      ({ p with offered := true }, some { type := .offer, serviceDescription := p.serviceDescription }) := by
    simp [PublisherPortRouDi.tryGetCaProMessage, hreq, hoff]
  have hreg : updateServiceRegistry pm.serviceRegistry
      { type := .offer, serviceDescription := p.serviceDescription } =
        some (pm.serviceRegistry.addPublisher p.serviceDescription).1 := if_pos rfl
  have hsend := sendToAllMatchingSubscriberPorts_offer hpol (p := { p with offered := true }) rfl
    p.queues pm.subscribers hsubs
  unfold doDiscoveryForPublisherPort
  rw [htry]
  dsimp only
  rw [hreg]
  dsimp only
  erw [hsend]
  rfl

end Offer

theorem doDiscoveryForPublisherPort_adds_queues_of_radar :
    let radar : ServiceDescription :=
      ⟨IoxString.truncateWithCount (some "Radar".toList) 5,
        IoxString.truncateWithCount (some "FrontLeft".toList) 9,
        IoxString.truncateWithCount (some "Objects".toList) 7, ⟨#[0, 0, 0, 0], rfl⟩, .worldwide,
        .internal⟩
    let sub : SubscriberPortData ℕ :=
      { SubscriberPortData.new radar 2 2 {} with
        subscribeRequested := true
        subscriptionState := .subscribed }
    let pub : PublisherPortData ℕ := { PublisherPortData.new radar 1 1 {} with offeringRequested := true }
    let pm : PortManager ℕ 8 := { (new : PortManager ℕ 8) with subscribers := [sub] }
    doDiscoveryForPublisherPort ⟨.manyToMany, 4, 4, 1, 2, 0⟩ pm pub =
      .ok ({ pm with serviceRegistry := (pm.serviceRegistry.addPublisher radar).1 },
        { pub with
          offered := true
          queues := addQueues 1 pub.queues (offeredQueues pub pm.subscribers) }) :=
  doDiscoveryForPublisherPort_adds_queues rfl _ _ rfl rfl (by simp [Settled])

/-! ### Withdrawing an offer -/

section StopOffer

variable (hpol : cfg.policy = .manyToMany)
include hpol

/-- **Destroying a publisher only withdraws its offer**: an offered publisher leaves the service
registry, and no subscriber changes; a publisher that does not offer changes nothing. -/
theorem destroyPublisherPort_removes_offer (pm : PortManager Name capacity)
    (hsubs : ∀ s ∈ pm.subscribers, Settled s) (p : PublisherPortData Name) :
    destroyPublisherPort cfg pm p =
      .ok (if p.offered then
        { pm with serviceRegistry := pm.serviceRegistry.removePublisher p.serviceDescription }
      else pm) := by
  unfold destroyPublisherPort
  rw [stopOffer_eq]
  by_cases hoff : p.offered = true
  swap
  · -- a publisher that does not offer has nothing to tell
    have htry : PublisherPortRouDi.tryGetCaProMessage { p with offeringRequested := false } =
        ({ p with offeringRequested := false }, none) := by
      simp [PublisherPortRouDi.tryGetCaProMessage, hoff]
    rw [htry, if_neg hoff]
  · have htry : PublisherPortRouDi.tryGetCaProMessage { p with offeringRequested := false } =
        ({ p with offeringRequested := false, offered := false, queues := [] },
          some { type := .stopOffer, serviceDescription := p.serviceDescription }) := by
      simp [PublisherPortRouDi.tryGetCaProMessage, hoff]
    rw [htry, if_pos hoff]
    dsimp only
    rw [if_pos rfl]
    have ht : ({ type := .stopOffer, serviceDescription := p.serviceDescription } : CaproMessage).type =
        .stopOffer := rfl
    obtain ⟨p', hsend⟩ := sendToAllMatchingSubscriberPorts_of_manyToMany hpol (.inr ht)
      { p with offeringRequested := false, offered := false, queues := [] } hsubs
    simp only [hsend, bind, Except.bind, pure, Except.pure]

end StopOffer

theorem destroyPublisherPort_removes_offer_of_radar :
    let radar : ServiceDescription :=
      ⟨IoxString.truncateWithCount (some "Radar".toList) 5,
        IoxString.truncateWithCount (some "FrontLeft".toList) 9,
        IoxString.truncateWithCount (some "Objects".toList) 7, ⟨#[0, 0, 0, 0], rfl⟩, .worldwide,
        .internal⟩
    let sub : SubscriberPortData ℕ :=
      { SubscriberPortData.new radar 2 2 {} with
        subscribeRequested := true
        subscriptionState := .subscribed }
    let pub : PublisherPortData ℕ :=
      { PublisherPortData.new radar 1 1 {} with
        offeringRequested := true
        offered := true
        queues := [2] }
    let pm : PortManager ℕ 8 :=
      { (new : PortManager ℕ 8) with publishers := [pub], subscribers := [sub] }
    destroyPublisherPort ⟨.manyToMany, 4, 4, 1, 2, 0⟩ pm pub =
      .ok (if pub.offered then
        { pm with serviceRegistry := pm.serviceRegistry.removePublisher radar }
      else pm) :=
  destroyPublisherPort_removes_offer rfl _ (by simp [Settled]) _

variable [DecidableEq Name]

/-- **Under the many-to-many policy, discovery never ends the program.** From RouDi's start,
every sequence of acquisitions and deletions of ports, offers, subscriptions, destructions and
rounds of discovery runs to its end: no port's dispatch meets a message it does not expect, and
no `IOX_ENFORCE` or `IOX_PANIC` of the port manager fires. -/
theorem run_ok_of_manyToMany (hpol : cfg.policy = .manyToMany) (actions : List (Action Name)) :
    ∃ pm', run cfg (new : PortManager Name capacity) actions = .ok pm' :=
  run_ok_of_settled hpol actions (by simp [new])

theorem run_ok_of_manyToMany_of_overflow :
    let radar : ServiceDescription :=
      ⟨IoxString.truncateWithCount (some "Radar".toList) 5,
        IoxString.truncateWithCount (some "FrontLeft".toList) 9,
        IoxString.truncateWithCount (some "Objects".toList) 7, ⟨#[0, 0, 0, 0], rfl⟩, .worldwide,
        .internal⟩
    ∃ pm', run ⟨.manyToMany, 4, 4, 1, 2, 0⟩ (new : PortManager ℕ 8)
      [.acquirePublisherPortData radar {} 1 0, .acquireSubscriberPortData radar {} 2 0,
        .acquireSubscriberPortData radar {} 3 1, .stopOffer 0, .doDiscovery] = .ok pm' :=
  run_ok_of_manyToMany rfl _

/-- The policy matters: under the one-to-many policy the same run ends the program. The second
subscriber finds the publisher's queue container (`MAX_SUBSCRIBERS_PER_PUBLISHER = 1`) full, is
answered `NACK` and waits for an offer; when the publisher stops its offer, the `STOP_OFFER`
reaches a subscriber in `WAIT_FOR_OFFER`, which its table does not expect. -/
theorem run_of_oneToMany_of_overflow :
    let radar : ServiceDescription :=
      ⟨IoxString.truncateWithCount (some "Radar".toList) 5,
        IoxString.truncateWithCount (some "FrontLeft".toList) 9,
        IoxString.truncateWithCount (some "Objects".toList) 7, ⟨#[0, 0, 0, 0], rfl⟩, .worldwide,
        .internal⟩
    run ⟨.oneToMany, 4, 4, 1, 2, 0⟩ (new : PortManager ℕ 8)
      [.acquirePublisherPortData radar {} 1 0, .acquireSubscriberPortData radar {} 2 0,
        .acquireSubscriberPortData radar {} 3 1, .stopOffer 0, .doDiscovery] =
      .error .caproProtocolError := by
  rfl

end Iox.Roudi.PortManager
