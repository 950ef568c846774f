import Mathlib
import Iceoryx.Capro.ServiceDescription
import Iceoryx.Data.Holdings
import Iceoryx.Machine.Run

/-!
# The service registry of RouDi

`ServiceRegistry` (`service_registry.cpp`) keeps, in a `vector` of at most `CAPACITY` optional
entries, one entry per service description with a count of the publishers and one of the servers
that offer it. An `add` increments the count of an existing entry, or takes a free slot: the one
`m_freeIndex` remembers from the last removal, else the first hole, else a new slot at the end.
A `remove` decrements a positive count and frees the slot when both counts reach zero; a `purge`
frees it whatever the counts.

The registry is meant to be **a pair of multisets** of descriptions (`Spec`), one for the
publishers and one for the servers, in which an `add` fails only when the description is new and
the registry already holds `CAPACITY` descriptions. Descriptions are told apart by
`ServiceDescription::operator==`, that is by their three identifiers (`ServiceDescription.ids`).

## What is proved

Every step that wraps no counter keeps the invariant `Inv` (one entry per description, positive
counts, a free index that names a free slot) and maps the abstraction `toSpec` of the registry to
the `Spec` step, with the same result (`Inv.registryStep`). Over every run from the empty registry
that adds each description fewer than `2 ^ 64` times per counter
(`serviceRegistry_refines_multisets`), then:

* each description has at most one entry, and its counts are its multiplicities in the two
  multisets: the adds that succeeded minus the removes that found a positive count, since its
  last purge;
* an entry exists exactly when one of its counts is positive;
* `m_freeIndex` is `NO_INDEX` or names a free slot;
* an add fails exactly when the description has no entry and all `CAPACITY` slots hold one;
* `find` reports each entry that passes its filters once.

The counters are `uint64_t`, and `((*entry).*count)++` wraps: after `2 ^ 64` adds of one
description its entry stays with both counts zero (`run_addPublisher_wraps`).
-/

namespace Iox

namespace Roudi

open Capro

/-- The identifiers that tell descriptions apart. -/
abbrev Ids := IdString × IdString × IdString

/-- `ServiceRegistry::Error` -/
inductive ServiceRegistryError
  | serviceRegistryFull
  deriving DecidableEq, Repr

/-- The counter that an `add` or a `remove` works on: the member pointers
`&ServiceDescriptionEntry::publisherCount` and `&ServiceDescriptionEntry::serverCount`. -/
inductive CountKind
  | publisher
  | server
  deriving DecidableEq, Repr

/-- The counter that is not `kind`. -/
def CountKind.other : CountKind → CountKind
  | publisher => server
  | server => publisher

/-- `ServiceRegistry::ServiceDescriptionEntry` -/
structure ServiceDescriptionEntry where
  serviceDescription : ServiceDescription
  publisherCount : ℕ
  serverCount : ℕ
  deriving DecidableEq

namespace ServiceDescriptionEntry

/-- `(*entry).*count` -/
def count : CountKind → ServiceDescriptionEntry → ℕ
  | .publisher, e => e.publisherCount
  | .server, e => e.serverCount

/-- `(*entry).*count = n` -/
def setCount : CountKind → ℕ → ServiceDescriptionEntry → ServiceDescriptionEntry
  | .publisher, n, e => { e with publisherCount := n }
  | .server, n, e => { e with serverCount := n }

/-- `ServiceDescriptionEntry(serviceDescription)` with `(*entry).*count = 1U`. -/
def new (serviceDescription : ServiceDescription) (kind : CountKind) : ServiceDescriptionEntry :=
  setCount kind 1 ⟨serviceDescription, 0, 0⟩

/-- The identifiers of the entry's description. -/
def ids (e : ServiceDescriptionEntry) : Ids :=
  e.serviceDescription.ids

theorem count_setCount (kind kind' : CountKind) (n : ℕ) (e : ServiceDescriptionEntry) :
    (e.setCount kind n).count kind' = if kind' = kind then n else e.count kind' := by
  cases kind <;> cases kind' <;> rfl

theorem count_setCount_self (kind : CountKind) (n : ℕ) (e : ServiceDescriptionEntry) :
    (e.setCount kind n).count kind = n := by
  cases kind <;> rfl

theorem count_setCount_other (kind : CountKind) (n : ℕ) (e : ServiceDescriptionEntry) :
    (e.setCount kind n).count kind.other = e.count kind.other := by
  cases kind <;> rfl

@[simp] theorem ids_setCount (kind : CountKind) (n : ℕ) (e : ServiceDescriptionEntry) :
    (e.setCount kind n).ids = e.ids := by
  cases kind <;> rfl

@[simp] theorem ids_new (sd : ServiceDescription) (kind : CountKind) : (new sd kind).ids = sd.ids := by
  cases kind <;> rfl

theorem count_new (kind kind' : CountKind) (sd : ServiceDescription) :
    (new sd kind).count kind' = if kind' = kind then 1 else 0 := by
  cases kind <;> cases kind' <;> rfl

theorem count_add_count_other (kind : CountKind) (e : ServiceDescriptionEntry) :
    e.count kind + e.count kind.other = e.publisherCount + e.serverCount := by
  cases kind
  · rfl
  · exact Nat.add_comm _ _

end ServiceDescriptionEntry

/-- `ServiceRegistry` with `CAPACITY = capacity`: the `vector<optional<ServiceDescriptionEntry>,
CAPACITY>` of its slots, `m_freeIndex` and `m_dataChanged`. -/
structure ServiceRegistry (capacity : ℕ) where
  serviceDescriptions : List (Option ServiceDescriptionEntry)
  size_le : serviceDescriptions.length ≤ capacity
  freeIndex : ℕ
  dataChanged : Bool

namespace ServiceRegistry

variable {capacity : ℕ}

/-- `ServiceRegistry::NO_INDEX` -/
def noIndex (capacity : ℕ) : ℕ :=
  capacity

/-- The registry as constructed: no slot, no free index, and `m_dataChanged` set so that the
empty registry is reported. -/
def empty : ServiceRegistry capacity :=
  ⟨[], Nat.zero_le _, noIndex capacity, true⟩

/-- The entries held by the slots, in slot order. -/
def entries (reg : ServiceRegistry capacity) : List ServiceDescriptionEntry :=
  reg.serviceDescriptions.filterMap id

/-- `ServiceRegistry::findIndex(serviceDescription)`: the first slot whose entry's description
is `operator==` to it, or `NO_INDEX`. -/
def findIndex (reg : ServiceRegistry capacity) (serviceDescription : ServiceDescription) : ℕ :=
  (reg.serviceDescriptions.findIdx? fun entry ↦
    entry.any (·.serviceDescription.beq serviceDescription)).getD (noIndex capacity)

/-- The registry with slot `index` set to `entry`. -/
def setSlot (reg : ServiceRegistry capacity) (index : ℕ) (entry : Option ServiceDescriptionEntry) :
    ServiceRegistry capacity :=
  { reg with
    serviceDescriptions := reg.serviceDescriptions.set index entry
    size_le := by rw [List.length_set]; exact reg.size_le }

/-- A slot appended below the capacity keeps the vector within it. -/
theorem size_le_append (reg : ServiceRegistry capacity) (entry : Option ServiceDescriptionEntry)
    (h : reg.serviceDescriptions.length < capacity) :
    (reg.serviceDescriptions ++ [entry]).length ≤ capacity := by
  rw [List.length_append, List.length_singleton]
  omega

/-- `ServiceRegistry::add(serviceDescription, count)` -/
def add (reg : ServiceRegistry capacity) (serviceDescription : ServiceDescription)
    (kind : CountKind) : ServiceRegistry capacity × Except ServiceRegistryError Unit :=
  let index := reg.findIndex serviceDescription
  if index ≠ noIndex capacity then
    -- entry exists, increment counter: `((*entry).*count)++` on a `uint64_t`
    let entry := (reg.serviceDescriptions.getD index none).map fun e ↦
      e.setCount kind ((e.count kind + 1) % 2 ^ 64)
    ({ reg.setSlot index entry with dataChanged := true }, .ok ())
  -- fast path to the free slot of the last removal
  else if reg.freeIndex ≠ noIndex capacity then
    ({ reg.setSlot reg.freeIndex (some (.new serviceDescription kind)) with
      freeIndex := noIndex capacity, dataChanged := true }, .ok ())
  else
    -- search from start for a hole
    match reg.serviceDescriptions.findIdx? Option.isNone with
    | some hole =>
      ({ reg.setSlot hole (some (.new serviceDescription kind)) with dataChanged := true }, .ok ())
    | none =>
      -- append new entry at the end (the size only grows up to capacity)
      if h : reg.serviceDescriptions.length < capacity then
        let entry := some (.new serviceDescription kind)
        ({ reg with
          serviceDescriptions := reg.serviceDescriptions ++ [entry]
          size_le := size_le_append reg entry h
          dataChanged := true }, .ok ())
      else (reg, .error .serviceRegistryFull)

/-- `ServiceRegistry::addPublisher(serviceDescription)` -/
def addPublisher (reg : ServiceRegistry capacity) (serviceDescription : ServiceDescription) :
    ServiceRegistry capacity × Except ServiceRegistryError Unit :=
  reg.add serviceDescription .publisher

/-- `ServiceRegistry::addServer(serviceDescription)` -/
def addServer (reg : ServiceRegistry capacity) (serviceDescription : ServiceDescription) :
    ServiceRegistry capacity × Except ServiceRegistryError Unit :=
  reg.add serviceDescription .server

/-- The body shared by `removePublisher` and `removeServer`, on the counter `kind`: decrement a
positive counter, and free the slot when both counters are zero. -/
def removeCount (kind : CountKind) (reg : ServiceRegistry capacity)
    (serviceDescription : ServiceDescription) : ServiceRegistry capacity :=
  let index := reg.findIndex serviceDescription
  if index ≠ noIndex capacity then
    match reg.serviceDescriptions.getD index none with
    | some entry =>
      if entry.count kind ≥ 1 then
        let entry := entry.setCount kind (entry.count kind - 1)
        if entry.count kind = 0 ∧ entry.count kind.other = 0 then
          -- reuse the slot in the next insertion
          { reg.setSlot index none with freeIndex := index, dataChanged := true }
        else reg.setSlot index (some entry)
      else reg
    | none => reg
  else reg

/-- `ServiceRegistry::removePublisher(serviceDescription)` -/
def removePublisher (reg : ServiceRegistry capacity) (serviceDescription : ServiceDescription) :
    ServiceRegistry capacity :=
  removeCount .publisher reg serviceDescription

/-- `ServiceRegistry::removeServer(serviceDescription)` -/
def removeServer (reg : ServiceRegistry capacity) (serviceDescription : ServiceDescription) :
    ServiceRegistry capacity :=
  removeCount .server reg serviceDescription

/-- `ServiceRegistry::purge(serviceDescription)` -/
def purge (reg : ServiceRegistry capacity) (serviceDescription : ServiceDescription) :
    ServiceRegistry capacity :=
  let index := reg.findIndex serviceDescription
  if index ≠ noIndex capacity then
    -- reuse the slot in the next insertion
    { reg.setSlot index none with freeIndex := index, dataChanged := true }
  else reg

/-- Whether an entry passes the filters of `find`: each given identifier is the entry's. -/
def Matches (service instanceId event : Option IdString) (e : ServiceDescriptionEntry) : Bool :=
  (match service with
    | some service => e.serviceDescription.serviceString == service
    | none => true) &&
  (match instanceId with
    | some instanceId => e.serviceDescription.instanceString == instanceId
    | none => true) &&
  (match event with
    | some event => e.serviceDescription.eventString == event
    | none => true)

/-- `ServiceRegistry::find(service, instance, event, callable)`: the entries `callable` is called
with, in order. -/
def find (reg : ServiceRegistry capacity) (service instanceId event : Option IdString) :
    List ServiceDescriptionEntry :=
  reg.serviceDescriptions.filterMap fun entry ↦ entry.filter (Matches service instanceId event)

/-- `ServiceRegistry::forEach(callable)`: the entries `callable` is called with, in order. -/
def forEach (reg : ServiceRegistry capacity) : List ServiceDescriptionEntry :=
  reg.serviceDescriptions.filterMap id

/-- `ServiceRegistry::hasDataChangedSinceLastCall()` -/
def hasDataChangedSinceLastCall (reg : ServiceRegistry capacity) :
    ServiceRegistry capacity × Bool :=
  ({ reg with dataChanged := false }, reg.dataChanged)

end ServiceRegistry

/-- The calls that change the registry. -/
inductive RegistryOp
  | addPublisher (serviceDescription : ServiceDescription)
  | addServer (serviceDescription : ServiceDescription)
  | removePublisher (serviceDescription : ServiceDescription)
  | removeServer (serviceDescription : ServiceDescription)
  | purge (serviceDescription : ServiceDescription)

/-- The registry as a machine; the calls that return `void` answer `ok`. -/
def registryMachine (capacity : ℕ) :
    Machine (ServiceRegistry capacity) RegistryOp (Except ServiceRegistryError Unit) where
  step reg
    | .addPublisher sd => reg.addPublisher sd
    | .addServer sd => reg.addServer sd
    | .removePublisher sd => (reg.removePublisher sd, .ok ())
    | .removeServer sd => (reg.removeServer sd, .ok ())
    | .purge sd => (reg.purge sd, .ok ())

/-! ### The registry as it is meant -/

/-- A pair of multisets of identifiers: those of the publishers and those of the servers. -/
structure Spec where
  publishers : Multiset Ids
  servers : Multiset Ids

namespace Spec

/-- The multiset of the counter `kind`. -/
def get : CountKind → Spec → Multiset Ids
  | .publisher, A => A.publishers
  | .server, A => A.servers

/-- `A` with the multiset of the counter `kind` changed by `f`. -/
def modify (kind : CountKind) (f : Multiset Ids → Multiset Ids) (A : Spec) : Spec :=
  match kind with
  | .publisher => { A with publishers := f A.publishers }
  | .server => { A with servers := f A.servers }

/-- The descriptions with a publisher or a server. -/
def present (A : Spec) : Finset Ids :=
  (A.publishers + A.servers).toFinset

/-- An add: refused only for a new description when `capacity` descriptions are present. -/
def add (capacity : ℕ) (kind : CountKind) (k : Ids) (A : Spec) :
    Spec × Except ServiceRegistryError Unit :=
  if k ∉ A.present ∧ A.present.card = capacity then (A, .error .serviceRegistryFull)
  else (A.modify kind (k ::ₘ ·), .ok ())

/-- A remove: one occurrence fewer, if there is one. -/
def remove (kind : CountKind) (k : Ids) (A : Spec) : Spec :=
  A.modify kind (·.erase k)

/-- A purge: no occurrence left. -/
def purge (k : Ids) (A : Spec) : Spec :=
  ⟨A.publishers.filter (· ≠ k), A.servers.filter (· ≠ k)⟩

theorem get_purge (kind : CountKind) (k : Ids) (A : Spec) :
    (A.purge k).get kind = (A.get kind).filter (· ≠ k) := by
  cases kind <;> rfl

/-- Changing a multiset into itself changes nothing. -/
theorem modify_eq_self {kind : CountKind} {f : Multiset Ids → Multiset Ids} {A : Spec}
    (h : f (A.get kind) = A.get kind) : A.modify kind f = A := by
  cases kind <;> simp only [modify, get] at h ⊢ <;> rw [h]

theorem ext_get {A B : Spec} (h : ∀ kind, A.get kind = B.get kind) : A = B := by
  obtain ⟨p, s⟩ := A
  obtain ⟨p', s'⟩ := B
  have hp := h .publisher
  have hs := h .server
  simp only [get] at hp hs
  rw [hp, hs]

theorem get_modify (kind kind' : CountKind) (f : Multiset Ids → Multiset Ids) (A : Spec) :
    (A.modify kind f).get kind' = if kind' = kind then f (A.get kind') else A.get kind' := by
  cases kind <;> cases kind' <;> rfl

end Spec

/-- The pair of multisets as a machine. -/
def specMachine (capacity : ℕ) : Machine Spec RegistryOp (Except ServiceRegistryError Unit) where
  step A
    | .addPublisher sd => A.add capacity .publisher sd.ids
    | .addServer sd => A.add capacity .server sd.ids
    | .removePublisher sd => (A.remove .publisher sd.ids, .ok ())
    | .removeServer sd => (A.remove .server sd.ids, .ok ())
    | .purge sd => (A.purge sd.ids, .ok ())

/-! ### Counters that do not wrap -/

/-- Whether a call adds the description `k` to the counter `kind`. -/
def RegistryOp.adds (kind : CountKind) (k : Ids) : RegistryOp → Bool
  | .addPublisher sd => decide (kind = .publisher ∧ sd.ids = k)
  | .addServer sd => decide (kind = .server ∧ sd.ids = k)
  | _ => false

namespace Spec

/-- The calls that leave every `uint64_t` counter of the registry unwrapped: an add finds its
description counted fewer than `2^64 - 1` times by the counter it increments. -/
def CountFits (A : Spec) : RegistryOp → Prop
  | .addPublisher sd => A.publishers.count sd.ids + 1 < 2 ^ 64
  | .addServer sd => A.servers.count sd.ids + 1 < 2 ^ 64
  | _ => True

/-- An add counts its description once more on its own counter, and nothing else. -/
theorem count_get_add_le (capacity : ℕ) (kind kind' : CountKind) (k k' : Ids) (A : Spec) :
    ((A.add capacity kind' k').1.get kind).count k ≤
      (A.get kind).count k + if kind = kind' ∧ k' = k then 1 else 0 := by
  unfold add
  by_cases hfull : k' ∉ A.present ∧ A.present.card = capacity
  · -- refused: nothing changes
    rw [if_pos hfull]
    exact Nat.le_add_right _ _
  · rw [if_neg hfull]
    by_cases hkind : kind = kind'
    · simp only [get_modify, if_pos hkind, Multiset.count_cons]
      by_cases hk : k = k'
      · rw [if_pos hk, if_pos ⟨hkind, hk.symm⟩]
      · rw [if_neg hk, add_zero]
        exact Nat.le_add_right _ _
    · simp only [get_modify, if_neg hkind]
      exact Nat.le_add_right _ _

/-- A remove counts no description more. -/
theorem count_get_remove_le (kind kind' : CountKind) (k k' : Ids) (A : Spec) :
    ((A.remove kind' k').get kind).count k ≤ (A.get kind).count k := by
  simp only [remove, get_modify]
  split_ifs
  · exact Multiset.count_le_of_le _ (Multiset.erase_le _ _)
  · exact le_rfl

/-- A purge counts no description more. -/
theorem count_get_purge_le (kind : CountKind) (k k' : Ids) (A : Spec) :
    ((A.purge k').get kind).count k ≤ (A.get kind).count k := by
  rw [get_purge]
  exact Multiset.count_le_of_le _ (Multiset.filter_le _ _)

/-- **A call counts a description at most once more**, and only when it adds it. -/
theorem count_get_step_le (capacity : ℕ) (A : Spec) (op : RegistryOp) (kind : CountKind)
    (k : Ids) :
    (((specMachine capacity).step A op).1.get kind).count k ≤
      (A.get kind).count k + if op.adds kind k then 1 else 0 := by
  cases op with
  | addPublisher sd =>
    simpa [specMachine, RegistryOp.adds] using count_get_add_le capacity kind .publisher k sd.ids A
  | addServer sd =>
    simpa [specMachine, RegistryOp.adds] using count_get_add_le capacity kind .server k sd.ids A
  | removePublisher sd =>
    exact (count_get_remove_le kind .publisher k sd.ids A).trans (Nat.le_add_right _ _)
  | removeServer sd =>
    exact (count_get_remove_le kind .server k sd.ids A).trans (Nat.le_add_right _ _)
  | purge sd => exact (count_get_purge_le kind k sd.ids A).trans (Nat.le_add_right _ _)

/-- **Few enough adds keep every counter from wrapping**: when, for each counter and description,
its count and the run's adds of it stay below `2^64`, the multisets admit the run. -/
theorem admits_countFits (capacity : ℕ) :
    ∀ (ops : List RegistryOp) (A : Spec),
      (∀ kind k, (A.get kind).count k + ops.countP (·.adds kind k) < 2 ^ 64) →
      (specMachine capacity).Admits CountFits A ops
  | [], _, _ => trivial
  | op :: ops, A, h => by
    refine ⟨?_, admits_countFits capacity ops _ fun kind k ↦ ?_⟩
    · -- the add is one of the run's adds of its description
      cases op with
      | addPublisher sd =>
        have hsd := h .publisher sd.ids
        simp only [List.countP_cons, RegistryOp.adds, get] at hsd
        simp only [CountFits]
        simp at hsd
        omega
      | addServer sd =>
        have hsd := h .server sd.ids
        simp only [List.countP_cons, RegistryOp.adds, get] at hsd
        simp only [CountFits]
        simp at hsd
        omega
      | removePublisher _ | removeServer _ | purge _ => trivial
    · -- the step counts `k` once more only when it adds it, which the rest does not repeat
      have hle := count_get_step_le capacity A op kind k
      have hk := h kind k
      rw [List.countP_cons] at hk
      omega

end Spec

/-! ### The abstraction of the slots -/

/-- The identifiers the entries contribute to the counter `kind`, each as often as it counts. -/
def shares (kind : CountKind) (es : List ServiceDescriptionEntry) : Multiset Ids :=
  (es.map fun e ↦ Multiset.replicate (e.count kind) e.ids).sum

section Shares

variable {kind : CountKind}

@[simp] theorem shares_nil : shares kind [] = 0 :=
  rfl

theorem shares_singleton (e : ServiceDescriptionEntry) :
    shares kind [e] = Multiset.replicate (e.count kind) e.ids := by
  simp [shares]

theorem shares_cons (e : ServiceDescriptionEntry) (es : List ServiceDescriptionEntry) :
    shares kind (e :: es) = Multiset.replicate (e.count kind) e.ids + shares kind es := by
  simp [shares]

theorem shares_append (l₁ l₂ : List ServiceDescriptionEntry) :
    shares kind (l₁ ++ l₂) = shares kind l₁ + shares kind l₂ := by
  simp [shares]

theorem shares_perm {l₁ l₂ : List ServiceDescriptionEntry} (h : l₁.Perm l₂) :
    shares kind l₁ = shares kind l₂ :=
  (h.map _).sum_eq

theorem mem_shares {k : Ids} {es : List ServiceDescriptionEntry} :
    k ∈ shares kind es ↔ ∃ e ∈ es, e.ids = k ∧ 0 < e.count kind := by
  induction es with
  | nil => simp [shares]
  | cons e es ih =>
    rw [shares_cons, Multiset.mem_add, ih, Multiset.mem_replicate]
    constructor
    · rintro (⟨hcount, rfl⟩ | ⟨e', he', hk, hpos⟩)
      · exact ⟨e, List.mem_cons_self, rfl, Nat.pos_of_ne_zero hcount⟩
      · exact ⟨e', List.mem_cons_of_mem e he', hk, hpos⟩
    · rintro ⟨e', he', hk, hpos⟩
      rcases List.mem_cons.1 he' with rfl | he'
      · exact Or.inl ⟨Nat.pos_iff_ne_zero.1 hpos, hk.symm⟩
      · exact Or.inr ⟨e', he', hk, hpos⟩

theorem count_shares_of_not_mem {k : Ids} {es : List ServiceDescriptionEntry}
    (h : k ∉ es.map ServiceDescriptionEntry.ids) : (shares kind es).count k = 0 := by
  rw [Multiset.count_eq_zero, mem_shares]
  rintro ⟨e, he, rfl, -⟩
  exact h (List.mem_map_of_mem he)

/-- A purge of a description without an entry leaves the shares as they are. -/
theorem filter_shares_of_not_mem {k : Ids} {es : List ServiceDescriptionEntry}
    (h : k ∉ es.map ServiceDescriptionEntry.ids) : (shares kind es).filter (· ≠ k) = shares kind es :=
  Multiset.filter_eq_self.2 fun k' hk' heq ↦ by
    subst heq
    exact (Multiset.count_pos.2 hk').ne' (count_shares_of_not_mem h)

/-- With one entry per description, a description counts as often as its entry says. -/
theorem count_shares_of_mem {k : Ids} {e : ServiceDescriptionEntry} :
    ∀ {es : List ServiceDescriptionEntry}, (es.map ServiceDescriptionEntry.ids).Nodup →
      e ∈ es → e.ids = k → (shares kind es).count k = e.count kind
  | e' :: es, hnodup, he, hk => by
    rw [List.map_cons, List.nodup_cons] at hnodup
    rw [shares_cons, Multiset.count_add, Multiset.count_replicate]
    rcases List.mem_cons.1 he with rfl | he
    · rw [if_pos hk, count_shares_of_not_mem (hk ▸ hnodup.1)]
      rfl
    · -- the head is another description
      have hne : e'.ids ≠ k := fun heq ↦ hnodup.1 (heq ▸ hk ▸ List.mem_map_of_mem he)
      rw [if_neg hne, count_shares_of_mem hnodup.2 he hk, Nat.zero_add]

end Shares

namespace ServiceRegistry

variable {capacity : ℕ}

/-- The pair of multisets a registry stands for. -/
def toSpec (reg : ServiceRegistry capacity) : Spec :=
  ⟨shares .publisher reg.entries, shares .server reg.entries⟩

/-! ### Slots and entries -/

theorem mem_entries {reg : ServiceRegistry capacity} {e : ServiceDescriptionEntry} :
    e ∈ reg.entries ↔ some e ∈ reg.serviceDescriptions := by
  simp [entries]

/-- **What `findIndex` finds**: `NO_INDEX` when no entry has the description's identifiers, else
the slot of such an entry. -/
theorem findIndex_spec (reg : ServiceRegistry capacity) (sd : ServiceDescription) :
    (reg.findIndex sd = noIndex capacity ∧ sd.ids ∉ reg.entries.map ServiceDescriptionEntry.ids) ∨
      reg.findIndex sd ≠ noIndex capacity ∧
        ∃ e, reg.serviceDescriptions[reg.findIndex sd]? = some (some e) ∧ e.ids = sd.ids := by
  unfold findIndex
  cases h : reg.serviceDescriptions.findIdx?
      (fun entry ↦ entry.any (·.serviceDescription.beq sd)) with
  | none =>
    refine Or.inl ⟨rfl, fun hmem ↦ ?_⟩
    obtain ⟨e, he, hids⟩ := List.mem_map.1 hmem
    have hnone := List.findIdx?_eq_none_iff.1 h (some e) (mem_entries.1 he)
    simp [ServiceDescription.beq_iff.2 hids] at hnone
  | some i =>
    obtain ⟨hi, hfound, -⟩ := List.findIdx?_eq_some_iff_getElem.1 h
    -- the slot found holds an entry with the identifiers
    obtain ⟨e, he, hbeq⟩ := (Option.any_eq_true _ _).1 hfound
    refine Or.inr ⟨Nat.ne_of_lt (Nat.lt_of_lt_of_le hi reg.size_le), e, ?_, ?_⟩
    · simp [List.getElem?_eq_getElem hi, he]
    · exact ServiceDescription.beq_iff.1 hbeq

/-- **Writing a slot trades its entry**: the entries after slot `i` is set to `v` are those before,
with the old slot's entry traded for `v`'s. -/
theorem entries_setSlot_perm {reg : ServiceRegistry capacity} {i : ℕ}
    {old : Option ServiceDescriptionEntry} (hi : reg.serviceDescriptions[i]? = some old)
    (v : Option ServiceDescriptionEntry) :
    ((reg.setSlot i v).entries ++ old.toList).Perm (reg.entries ++ v.toList) := by
  obtain ⟨hlt, rfl⟩ := List.getElem?_eq_some_iff.1 hi
  simpa only [entries, setSlot, List.filterMap_eq_flatMap_toList, id] using
    List.flatMap_set_perm (fun x : Option ServiceDescriptionEntry ↦ x.toList) hlt v

theorem length_entries_le (reg : ServiceRegistry capacity) :
    reg.entries.length ≤ reg.serviceDescriptions.length :=
  List.length_filterMap_le _ _

/-- A free slot makes the entries fewer than the slots. -/
theorem length_entries_lt {slots : List (Option ServiceDescriptionEntry)} (h : none ∈ slots) :
    (slots.filterMap id).length < slots.length := by
  induction slots with
  | nil => simp at h
  | cons x slots ih =>
    rcases x with _ | x
    · simp only [List.filterMap_cons, id, List.length_cons]
      exact Nat.lt_succ_of_le (List.length_filterMap_le _ _)
    · simp only [List.mem_cons, reduceCtorEq, false_or] at h
      simpa using ih h

/-- Without a free slot there are as many entries as slots. -/
theorem length_entries_eq {slots : List (Option ServiceDescriptionEntry)}
    (h : ∀ slot ∈ slots, slot.isSome) : (slots.filterMap id).length = slots.length := by
  induction slots with
  | nil => rfl
  | cons x slots ih =>
    obtain ⟨x, rfl⟩ := Option.isSome_iff_exists.1 (h x List.mem_cons_self)
    rw [List.filterMap_cons_some (f := id) rfl, List.length_cons, List.length_cons,
      ih fun slot hslot ↦ h slot (List.mem_cons_of_mem _ hslot)]

/-- The invariant of the registry. -/
structure Inv (reg : ServiceRegistry capacity) : Prop where
  /-- Each description has at most one entry. -/
  nodup : (reg.entries.map ServiceDescriptionEntry.ids).Nodup
  /-- An entry has a publisher or a server. -/
  positive : ∀ e ∈ reg.entries, 0 < e.publisherCount + e.serverCount
  /-- `m_freeIndex` is `NO_INDEX` or a free slot. -/
  freeIndex : reg.freeIndex = noIndex capacity ∨ reg.serviceDescriptions[reg.freeIndex]? = some none

theorem get_toSpec (reg : ServiceRegistry capacity) (kind : CountKind) :
    reg.toSpec.get kind = shares kind reg.entries := by
  cases kind <;> rfl

/-! ### How the abstraction follows a change of entries -/

section Trade

variable {reg reg' : ServiceRegistry capacity}

/-- **Trading entries trades their shares.** -/
theorem shares_trade {olds news : List ServiceDescriptionEntry}
    (h : (reg'.entries ++ olds).Perm (reg.entries ++ news)) (kind : CountKind) :
    shares kind reg'.entries + shares kind olds = shares kind reg.entries + shares kind news := by
  rw [← shares_append, ← shares_append, shares_perm h]

/-- A new entry in a free slot adds its description to the multiset of its counter. -/
theorem toSpec_of_fill {sd : ServiceDescription} {kind : CountKind}
    (h : reg'.entries.Perm (reg.entries ++ [.new sd kind])) :
    reg'.toSpec = reg.toSpec.modify kind (sd.ids ::ₘ ·) := by
  apply Spec.ext_get
  intro kind'
  have hperm : (reg'.entries ++ []).Perm
      (reg.entries ++ [ServiceDescriptionEntry.new sd kind]) := by
    simpa using h
  have hsh := shares_trade hperm kind'
  rw [shares_nil, add_zero, shares_singleton, ServiceDescriptionEntry.count_new] at hsh
  rw [get_toSpec, Spec.get_modify, get_toSpec]
  split_ifs at hsh ⊢
  · rw [hsh, ServiceDescriptionEntry.ids_new, Multiset.replicate_one, Multiset.add_comm,
      Multiset.singleton_add]
  · rw [hsh, Multiset.replicate_zero, add_zero]

/-- Counting one more on an entry adds its description once more. -/
theorem toSpec_of_increment {e : ServiceDescriptionEntry} {kind : CountKind}
    (h : (reg'.entries ++ [e]).Perm (reg.entries ++ [e.setCount kind (e.count kind + 1)])) :
    reg'.toSpec = reg.toSpec.modify kind (e.ids ::ₘ ·) := by
  apply Spec.ext_get
  intro kind'
  have hsh := shares_trade h kind'
  rw [shares_singleton, shares_singleton, ServiceDescriptionEntry.count_setCount,
    ServiceDescriptionEntry.ids_setCount] at hsh
  rw [get_toSpec, Spec.get_modify, get_toSpec]
  split_ifs at hsh ⊢ with hkind
  · subst hkind
    -- cancel the entry's old share on both sides
    rw [Multiset.replicate_succ, Multiset.add_cons, ← Multiset.cons_add] at hsh
    exact add_right_cancel hsh
  · exact add_right_cancel hsh

/-- Counting one less on an entry that counts removes its description once. -/
theorem toSpec_of_decrement {e : ServiceDescriptionEntry} {kind : CountKind}
    (hpos : 1 ≤ e.count kind)
    (h : (reg'.entries ++ [e]).Perm (reg.entries ++ [e.setCount kind (e.count kind - 1)])) :
    reg'.toSpec = reg.toSpec.modify kind (·.erase e.ids) := by
  apply Spec.ext_get
  intro kind'
  have hsh := shares_trade h kind'
  rw [shares_singleton, shares_singleton, ServiceDescriptionEntry.count_setCount,
    ServiceDescriptionEntry.ids_setCount] at hsh
  rw [get_toSpec, Spec.get_modify, get_toSpec]
  split_ifs at hsh ⊢ with hkind
  · subst hkind
    obtain ⟨c, hc⟩ := Nat.exists_eq_add_of_le' hpos
    rw [hc, Nat.add_sub_cancel, Multiset.replicate_succ, Multiset.add_cons,
      ← Multiset.cons_add] at hsh
    rw [← add_right_cancel hsh, Multiset.erase_cons_head]
  · exact add_right_cancel hsh

/-- Freeing the slot of an entry that counts once, for `kind` only, removes its description
once. -/
theorem toSpec_of_release {e : ServiceDescriptionEntry} {kind : CountKind}
    (hone : e.count kind = 1) (hother : e.count kind.other = 0)
    (h : (reg'.entries ++ [e]).Perm reg.entries) :
    reg'.toSpec = reg.toSpec.modify kind (·.erase e.ids) := by
  apply Spec.ext_get
  intro kind'
  have hperm : (reg'.entries ++ [e]).Perm (reg.entries ++ []) := by simpa using h
  have hsh := shares_trade hperm kind'
  rw [shares_singleton, shares_nil, add_zero] at hsh
  rw [get_toSpec, Spec.get_modify, get_toSpec, ← hsh]
  split_ifs with hkind
  · subst hkind
    rw [hone, Multiset.replicate_one, Multiset.add_comm, Multiset.singleton_add,
      Multiset.erase_cons_head]
  · -- the other counter of the entry is zero
    have : kind' = kind.other := by cases kind <;> cases kind' <;> first | rfl | exact absurd rfl hkind
    rw [this, hother, Multiset.replicate_zero, add_zero]

/-- Freeing the slot of the only entry of a description removes it from both multisets. -/
theorem toSpec_of_purge {e : ServiceDescriptionEntry}
    (hfresh : e.ids ∉ reg'.entries.map ServiceDescriptionEntry.ids)
    (h : (reg'.entries ++ [e]).Perm reg.entries) :
    reg'.toSpec = reg.toSpec.purge e.ids := by
  apply Spec.ext_get
  intro kind
  have hperm : (reg'.entries ++ [e]).Perm (reg.entries ++ []) := by simpa using h
  have hsh := shares_trade hperm kind
  rw [shares_singleton, shares_nil, add_zero] at hsh
  rw [get_toSpec, Spec.get_purge, get_toSpec, ← hsh, Multiset.filter_add]
  -- the other entries have other descriptions; the freed one had only this one
  have hitself : (Multiset.replicate (e.count kind) e.ids).filter (· ≠ e.ids) = 0 :=
    Multiset.filter_eq_nil.2 fun k hk ↦ not_not.2 (Multiset.eq_of_mem_replicate hk)
  rw [filter_shares_of_not_mem hfresh, hitself, add_zero]

end Trade

/-! ### The invariant -/

namespace Inv

variable {reg reg' : ServiceRegistry capacity}

/-- **A description is present exactly when it has an entry**, as entries have a positive count. -/
theorem mem_present_toSpec (hinv : reg.Inv) {k : Ids} :
    k ∈ reg.toSpec.present ↔ k ∈ reg.entries.map ServiceDescriptionEntry.ids := by
  simp only [Spec.present, toSpec, Multiset.mem_toFinset, Multiset.mem_add, mem_shares,
    List.mem_map]
  constructor
  · rintro (⟨e, he, hk, -⟩ | ⟨e, he, hk, -⟩) <;> exact ⟨e, he, hk⟩
  · rintro ⟨e, he, hk⟩
    have hpos := hinv.positive e he
    by_cases hpublisher : 0 < e.publisherCount
    · exact Or.inl ⟨e, he, hk, hpublisher⟩
    · exact Or.inr ⟨e, he, hk, show 0 < e.serverCount by omega⟩

/-- **As many descriptions are present as there are entries.** -/
theorem card_present_toSpec (hinv : reg.Inv) : reg.toSpec.present.card = reg.entries.length := by
  have hpresent : reg.toSpec.present = (reg.entries.map ServiceDescriptionEntry.ids).toFinset :=
    Finset.ext fun k ↦ by rw [hinv.mem_present_toSpec, List.mem_toFinset]
  rw [hpresent, List.toFinset_card_of_nodup hinv.nodup, List.length_map]

/-- An entry replaced by a counting one of the same description keeps the invariant. -/
theorem replace (hinv : reg.Inv) {e e' : ServiceDescriptionEntry} (hids : e'.ids = e.ids)
    (hpos : 0 < e'.publisherCount + e'.serverCount)
    (h : (reg'.entries ++ [e]).Perm (reg.entries ++ [e']))
    (hfree : reg'.freeIndex = noIndex capacity ∨
      reg'.serviceDescriptions[reg'.freeIndex]? = some none) : reg'.Inv where
  nodup := by
    have hperm := h.map ServiceDescriptionEntry.ids
    simp only [List.map_append, List.map_singleton, hids] at hperm
    exact ((List.perm_append_right_iff _).1 hperm).nodup_iff.2 hinv.nodup
  positive := fun x hx ↦ by
    rcases List.mem_append.1 (h.subset (List.mem_append_left _ hx)) with hx | hx
    · exact hinv.positive x hx
    · rw [List.mem_singleton.1 hx]
      exact hpos
  freeIndex := hfree

/-- A counting entry of a new description keeps the invariant. -/
theorem fill (hinv : reg.Inv) {n : ServiceDescriptionEntry}
    (hfresh : n.ids ∉ reg.entries.map ServiceDescriptionEntry.ids)
    (hpos : 0 < n.publisherCount + n.serverCount) (h : reg'.entries.Perm (reg.entries ++ [n]))
    (hfree : reg'.freeIndex = noIndex capacity ∨
      reg'.serviceDescriptions[reg'.freeIndex]? = some none) : reg'.Inv where
  nodup := by
    have hperm := h.map ServiceDescriptionEntry.ids
    rw [List.map_append, List.map_singleton] at hperm
    refine hperm.nodup_iff.2 (List.nodup_append.2 ⟨hinv.nodup, List.nodup_singleton _, ?_⟩)
    rintro a ha b hb rfl
    exact hfresh (List.mem_singleton.1 hb ▸ ha)
  positive := fun x hx ↦ by
    rcases List.mem_append.1 (h.subset hx) with hx | hx
    · exact hinv.positive x hx
    · rw [List.mem_singleton.1 hx]
      exact hpos
  freeIndex := hfree

/-- The description of a freed entry has no other entry. -/
theorem fresh_of_release (hinv : reg.Inv) {e : ServiceDescriptionEntry}
    (h : (reg'.entries ++ [e]).Perm reg.entries) :
    e.ids ∉ reg'.entries.map ServiceDescriptionEntry.ids := by
  have hnodup := (h.map ServiceDescriptionEntry.ids).nodup_iff.2 hinv.nodup
  rw [List.map_append, List.map_singleton, List.nodup_append] at hnodup
  exact fun hmem ↦ hnodup.2.2 _ hmem _ List.mem_cons_self rfl

/-- Freeing the slot of an entry keeps the invariant. -/
theorem release (hinv : reg.Inv) {e : ServiceDescriptionEntry}
    (h : (reg'.entries ++ [e]).Perm reg.entries)
    (hfree : reg'.freeIndex = noIndex capacity ∨
      reg'.serviceDescriptions[reg'.freeIndex]? = some none) : reg'.Inv where
  nodup := by
    have hnodup := (h.map ServiceDescriptionEntry.ids).nodup_iff.2 hinv.nodup
    rw [List.map_append] at hnodup
    exact (List.nodup_append.1 hnodup).1
  positive := fun x hx ↦ hinv.positive x (h.subset (List.mem_append_left _ hx))
  freeIndex := hfree

/-- Writing an occupied slot leaves the free index free. -/
theorem freeIndex_setSlot (hinv : reg.Inv) {i : ℕ} {e : ServiceDescriptionEntry}
    (hi : reg.serviceDescriptions[i]? = some (some e)) (v : Option ServiceDescriptionEntry) :
    (reg.setSlot i v).freeIndex = noIndex capacity ∨
      (reg.setSlot i v).serviceDescriptions[(reg.setSlot i v).freeIndex]? = some none := by
  rcases hinv.freeIndex with hnone | hfree
  · exact Or.inl hnone
  · -- the free slot is not the occupied one
    have hne : i ≠ reg.freeIndex := fun heq ↦ by rw [heq, hfree] at hi; cases hi
    exact Or.inr (by rw [setSlot, List.getElem?_set_ne hne]; exact hfree)

end Inv

/-- The slot freed by a removal is free. -/
theorem freeIndex_release {reg : ServiceRegistry capacity} {i : ℕ}
    {old : Option ServiceDescriptionEntry} (hi : reg.serviceDescriptions[i]? = some old) :
    (reg.setSlot i none).serviceDescriptions[i]? = some none := by
  rw [setSlot, List.getElem?_set_self (List.getElem?_eq_some_iff.1 hi).1]

/-! ### Each call against the multisets -/

section Calls

variable {reg : ServiceRegistry capacity}

theorem positive_new (sd : ServiceDescription) (kind : CountKind) :
    0 < (ServiceDescriptionEntry.new sd kind).publisherCount +
      (ServiceDescriptionEntry.new sd kind).serverCount := by
  cases kind <;> simp [ServiceDescriptionEntry.new, ServiceDescriptionEntry.setCount]

/-- A new description in a free slot: the shared end of the three ways `add` finds one. -/
theorem Inv.add_fill (hinv : reg.Inv) {sd : ServiceDescription} {kind : CountKind}
    (hfresh : sd.ids ∉ reg.entries.map ServiceDescriptionEntry.ids) (hroom : reg.entries.length < capacity)
    {reg' : ServiceRegistry capacity}
    (h : reg'.entries.Perm (reg.entries ++ [.new sd kind]))
    (hfree : reg'.freeIndex = noIndex capacity ∨
      reg'.serviceDescriptions[reg'.freeIndex]? = some none) :
    reg'.Inv ∧ Prod.map toSpec id (reg', (.ok () : Except ServiceRegistryError Unit)) =
      reg.toSpec.add capacity kind sd.ids := by
  have hnotfull : ¬(sd.ids ∉ reg.toSpec.present ∧ reg.toSpec.present.card = capacity) := by
    rw [hinv.card_present_toSpec]
    omega
  refine ⟨hinv.fill (by rwa [ServiceDescriptionEntry.ids_new]) (positive_new sd kind) h hfree, ?_⟩
  rw [Spec.add, if_neg hnotfull, Prod.map_apply, toSpec_of_fill h]
  rfl

/-- **`add`** keeps the invariant and is the add of the multisets, with the same answer, as long
as the counter it increments does not wrap. -/
theorem Inv.add (hinv : reg.Inv) (sd : ServiceDescription) (kind : CountKind)
    (hfits : (reg.toSpec.get kind).count sd.ids + 1 < 2 ^ 64) :
    (reg.add sd kind).1.Inv ∧
      Prod.map toSpec id (reg.add sd kind) = reg.toSpec.add capacity kind sd.ids := by
  rcases findIndex_spec reg sd with ⟨hindex, hfresh⟩ | ⟨hindex, e, he, hids⟩
  · -- a new description: the free slot, the first hole, a new slot at the end, or full
    unfold ServiceRegistry.add
    dsimp only
    rw [if_neg (not_not.2 hindex)]
    by_cases hfreeIndex : reg.freeIndex = noIndex capacity
    · rw [if_neg (not_not.2 hfreeIndex)]
      cases hhole : reg.serviceDescriptions.findIdx? Option.isNone with
      | some hole =>
        -- the first hole
        obtain ⟨hlt, hisNone, -⟩ := List.findIdx?_eq_some_iff_getElem.1 hhole
        have hslot : reg.serviceDescriptions[hole]? = some none := by
          rw [List.getElem?_eq_getElem hlt, Option.isNone_iff_eq_none.1 hisNone]
        apply hinv.add_fill hfresh
          (Nat.lt_of_lt_of_le (length_entries_lt (List.mem_of_getElem? hslot)) reg.size_le)
        · have hperm := entries_setSlot_perm hslot (some (.new sd kind))
          simp only [Option.toList_some, Option.toList_none, List.append_nil] at hperm
          exact hperm
        · exact Or.inl hfreeIndex
      | none =>
        have hlength : reg.entries.length = reg.serviceDescriptions.length :=
          length_entries_eq fun slot hslot ↦ by
            simpa using List.findIdx?_eq_none_iff.1 hhole slot hslot
        dsimp only
        split_ifs with hroom
        · -- a new slot at the end
          apply hinv.add_fill hfresh (by omega)
          · simp [entries]
          · exact Or.inl hfreeIndex
        · -- every slot holds an entry
          have hcard : reg.toSpec.present.card = capacity := by
            rw [hinv.card_present_toSpec]
            have := reg.size_le
            omega
          refine ⟨hinv, ?_⟩
          rw [Spec.add, if_pos ⟨by rwa [hinv.mem_present_toSpec], hcard⟩]
          rfl
    · -- the slot of the last removal is free
      rw [if_pos hfreeIndex]
      have hslot : reg.serviceDescriptions[reg.freeIndex]? = some none :=
        hinv.freeIndex.resolve_left hfreeIndex
      apply hinv.add_fill hfresh
        (Nat.lt_of_lt_of_le (length_entries_lt (List.mem_of_getElem? hslot)) reg.size_le)
      · have hperm := entries_setSlot_perm hslot (some (.new sd kind))
        simp only [Option.toList_some, Option.toList_none, List.append_nil] at hperm
        exact hperm
      · exact Or.inl rfl
  · -- the description has an entry: count one more
    have hslot : reg.serviceDescriptions.getD (reg.findIndex sd) none = some e := by
      rw [List.getD_eq_getElem?_getD, he, Option.getD_some]
    have hmem : e ∈ reg.entries := mem_entries.2 (List.mem_of_getElem? he)
    have hpresent : sd.ids ∈ reg.toSpec.present := by
      rw [hinv.mem_present_toSpec, ← hids]
      exact List.mem_map_of_mem hmem
    -- the counter is its description's multiplicity, below `2^64 - 1`: the increment does not wrap
    have hcount : (e.count kind + 1) % 2 ^ 64 = e.count kind + 1 := by
      rw [get_toSpec, ← hids, count_shares_of_mem hinv.nodup hmem rfl] at hfits
      exact Nat.mod_eq_of_lt hfits
    have hperm := entries_setSlot_perm he (some (e.setCount kind (e.count kind + 1)))
    rw [Option.toList_some, Option.toList_some] at hperm
    unfold ServiceRegistry.add
    dsimp only
    rw [if_pos hindex, hslot, Option.map_some, hcount]
    refine ⟨hinv.replace (ServiceDescriptionEntry.ids_setCount _ _ _) ?_ hperm
      (hinv.freeIndex_setSlot he _), ?_⟩
    · rw [← ServiceDescriptionEntry.count_add_count_other kind,
        ServiceDescriptionEntry.count_setCount_self]
      omega
    · rw [Spec.add, if_neg (fun h ↦ h.1 hpresent), ← hids]
      exact Prod.ext (toSpec_of_increment hperm) rfl

/-- **The answer of `add`** is that of the multisets, whether or not the counter wraps. -/
theorem Inv.add_snd (hinv : reg.Inv) (sd : ServiceDescription) (kind : CountKind) :
    (reg.add sd kind).2 = (reg.toSpec.add capacity kind sd.ids).2 := by
  rcases findIndex_spec reg sd with ⟨-, hfresh⟩ | ⟨hindex, e, he, hids⟩
  · -- a new description is counted zero times: the counter cannot wrap
    have hzero : (reg.toSpec.get kind).count sd.ids = 0 := by
      rw [get_toSpec]
      exact count_shares_of_not_mem hfresh
    have hadd := (hinv.add sd kind (by rw [hzero]; decide)).2
    rw [← hadd]
    rfl
  · have hpresent : sd.ids ∈ reg.toSpec.present := by
      rw [hinv.mem_present_toSpec, ← hids]
      exact List.mem_map_of_mem (mem_entries.2 (List.mem_of_getElem? he))
    unfold ServiceRegistry.add
    dsimp only
    rw [if_pos hindex, Spec.add, if_neg (fun h ↦ h.1 hpresent)]

/-- A remove of a description that does not count changes nothing. -/
theorem remove_toSpec_of_count_eq_zero {kind : CountKind} {k : Ids}
    (h : (shares kind reg.entries).count k = 0) : reg.toSpec.remove kind k = reg.toSpec :=
  Spec.modify_eq_self (by
    rw [get_toSpec]
    exact Multiset.erase_of_notMem (Multiset.count_eq_zero.1 h))

/-- A purge of a description without an entry changes nothing. -/
theorem purge_toSpec_of_not_mem {k : Ids} (h : k ∉ reg.entries.map ServiceDescriptionEntry.ids) :
    reg.toSpec.purge k = reg.toSpec := by
  apply Spec.ext_get
  intro kind
  rw [Spec.get_purge, get_toSpec]
  exact filter_shares_of_not_mem h

/-- **`removePublisher` and `removeServer`** keep the invariant and are the remove of the
multisets. -/
theorem Inv.removeCount (hinv : reg.Inv) (kind : CountKind) (sd : ServiceDescription) :
    (reg.removeCount kind sd).Inv ∧ (reg.removeCount kind sd).toSpec = reg.toSpec.remove kind sd.ids := by
  rcases findIndex_spec reg sd with ⟨hindex, hfresh⟩ | ⟨hindex, e, he, hids⟩
  · -- no entry: nothing to remove
    unfold ServiceRegistry.removeCount
    dsimp only
    rw [if_neg (not_not.2 hindex)]
    exact ⟨hinv, (remove_toSpec_of_count_eq_zero (count_shares_of_not_mem hfresh)).symm⟩
  have hslot : reg.serviceDescriptions.getD (reg.findIndex sd) none = some e := by
    rw [List.getD_eq_getElem?_getD, he, Option.getD_some]
  have hcount : (shares kind reg.entries).count sd.ids = e.count kind :=
    count_shares_of_mem hinv.nodup (mem_entries.2 (List.mem_of_getElem? he)) hids
  unfold ServiceRegistry.removeCount
  dsimp only
  rw [if_pos hindex, hslot]
  dsimp only
  rw [ServiceDescriptionEntry.count_setCount_self, ServiceDescriptionEntry.count_setCount_other]
  split_ifs with hpos hzero
  · -- the last count: free the slot
    have hperm := entries_setSlot_perm he none
    rw [Option.toList_some, Option.toList_none, List.append_nil] at hperm
    refine ⟨hinv.release hperm (Or.inr (freeIndex_release he)), ?_⟩
    rw [Spec.remove, ← hids]
    exact toSpec_of_release (by omega) hzero.2 hperm
  · -- count one less
    have hperm := entries_setSlot_perm he (some (e.setCount kind (e.count kind - 1)))
    rw [Option.toList_some, Option.toList_some] at hperm
    have hleft : 0 < (e.setCount kind (e.count kind - 1)).publisherCount +
        (e.setCount kind (e.count kind - 1)).serverCount := by
      rw [← ServiceDescriptionEntry.count_add_count_other kind,
        ServiceDescriptionEntry.count_setCount_self, ServiceDescriptionEntry.count_setCount_other]
      omega
    refine ⟨hinv.replace (ServiceDescriptionEntry.ids_setCount _ _ _) hleft hperm
      (hinv.freeIndex_setSlot he _), ?_⟩
    rw [Spec.remove, ← hids]
    exact toSpec_of_decrement hpos hperm
  · -- a zero count: nothing to remove
    exact ⟨hinv, (remove_toSpec_of_count_eq_zero (by omega)).symm⟩

/-- **`purge`** keeps the invariant and is the purge of the multisets. -/
theorem Inv.purge (hinv : reg.Inv) (sd : ServiceDescription) :
    (reg.purge sd).Inv ∧ (reg.purge sd).toSpec = reg.toSpec.purge sd.ids := by
  rcases findIndex_spec reg sd with ⟨hindex, hfresh⟩ | ⟨hindex, e, he, hids⟩
  · -- no entry: nothing to purge
    unfold ServiceRegistry.purge
    dsimp only
    rw [if_neg (not_not.2 hindex)]
    exact ⟨hinv, (purge_toSpec_of_not_mem hfresh).symm⟩
  · have hperm := entries_setSlot_perm he none
    rw [Option.toList_some, Option.toList_none, List.append_nil] at hperm
    unfold ServiceRegistry.purge
    dsimp only
    rw [if_pos hindex, ← hids]
    exact ⟨hinv.release hperm (Or.inr (freeIndex_release he)),
      toSpec_of_purge (hinv.fresh_of_release hperm) hperm⟩

end Calls

/-! ### What a registry that keeps the invariant shows -/

section Observations

variable {reg : ServiceRegistry capacity}

/-- **Counts are multiplicities**: an entry's count is how often its description is in the
multiset of the counter. -/
theorem Inv.count_get_toSpec (hinv : reg.Inv) {e : ServiceDescriptionEntry} (he : e ∈ reg.entries)
    (kind : CountKind) : (reg.toSpec.get kind).count e.ids = e.count kind := by
  rw [get_toSpec]
  exact count_shares_of_mem hinv.nodup he rfl

theorem count_get_toSpec_of_not_mem {k : Ids} (h : k ∉ reg.entries.map ServiceDescriptionEntry.ids)
    (kind : CountKind) : (reg.toSpec.get kind).count k = 0 := by
  rw [get_toSpec]
  exact count_shares_of_not_mem h

/-- **An add fails exactly when the description has no entry and every slot holds one.** -/
theorem Inv.add_eq_error_iff (hinv : reg.Inv) (sd : ServiceDescription) (kind : CountKind) :
    (reg.add sd kind).2 = .error .serviceRegistryFull ↔
      sd.ids ∉ reg.entries.map ServiceDescriptionEntry.ids ∧ reg.entries.length = capacity := by
  rw [hinv.add_snd, ← hinv.mem_present_toSpec, ← hinv.card_present_toSpec, Spec.add]
  split_ifs with hfull
  · exact iff_of_true rfl hfull
  · exact iff_of_false (by simp) hfull

/-- `find` calls back with the entries that pass its filters, in slot order. -/
theorem find_eq_filter (service instanceId event : Option IdString) :
    reg.find service instanceId event = reg.entries.filter (Matches service instanceId event) := by
  rw [find, entries, List.filter_filterMap]
  rfl

theorem mem_find {service instanceId event : Option IdString} {e : ServiceDescriptionEntry} :
    e ∈ reg.find service instanceId event ↔ e ∈ reg.entries ∧ Matches service instanceId event e := by
  rw [find_eq_filter, List.mem_filter]

/-- **`find` calls back at most once with each entry.** -/
theorem Inv.nodup_find (hinv : reg.Inv) (service instanceId event : Option IdString) :
    (reg.find service instanceId event).Nodup := by
  rw [find_eq_filter]
  exact (hinv.nodup.of_map _).filter _

end Observations

/-! ### Runs -/

/-- **Every call keeps the invariant and is the call of the multisets**, with the same answer,
as long as it wraps no counter. -/
theorem Inv.registryStep {reg : ServiceRegistry capacity} (hinv : reg.Inv) (op : RegistryOp)
    (hop : reg.toSpec.CountFits op) :
    ((registryMachine capacity).step reg op).1.Inv ∧
      Prod.map toSpec id ((registryMachine capacity).step reg op) =
        (specMachine capacity).step reg.toSpec op := by
  cases op with
  | addPublisher sd => exact hinv.add sd .publisher hop
  | addServer sd => exact hinv.add sd .server hop
  | removePublisher sd =>
    obtain ⟨hinv', hspec⟩ := hinv.removeCount .publisher sd
    exact ⟨hinv', Prod.ext hspec rfl⟩
  | removeServer sd =>
    obtain ⟨hinv', hspec⟩ := hinv.removeCount .server sd
    exact ⟨hinv', Prod.ext hspec rfl⟩
  | purge sd =>
    obtain ⟨hinv', hspec⟩ := hinv.purge sd
    exact ⟨hinv', Prod.ext hspec rfl⟩

/-- A registry that keeps the invariant simulates the multisets it stands for. -/
theorem simulation_specMachine :
    (registryMachine capacity).Simulation (specMachine capacity) Spec.CountFits
      (fun reg A ↦ reg.Inv ∧ reg.toSpec = A) := by
  rintro reg A op ⟨hinv, rfl⟩ hop
  obtain ⟨hinv', hstep⟩ := hinv.registryStep op hop
  exact ⟨congrArg Prod.snd hstep, hinv', congrArg Prod.fst hstep⟩

theorem inv_empty : (empty : ServiceRegistry capacity).Inv where
  nodup := List.nodup_nil
  positive := fun _ he ↦ absurd he List.not_mem_nil
  freeIndex := Or.inl rfl

theorem toSpec_empty : (empty : ServiceRegistry capacity).toSpec = ⟨0, 0⟩ :=
  rfl

/-- **The registry refines a pair of multisets.** After every run of calls from the empty
registry in which each description is added fewer than `2^64` times as a publisher and fewer than
`2^64` times as a server (the `uint64_t` counters do not wrap), the answers are those of the
multisets; each description has at most one entry, whose
counts are the description's multiplicities (and a description without an entry has none); an
entry counts a publisher or a server; `m_freeIndex` is `NO_INDEX` or a free slot; an add fails
exactly when the description has no entry and all `CAPACITY` slots hold one; and `find` calls
back once with each entry that passes its filters, and with no other. -/
theorem serviceRegistry_refines_multisets (ops : List RegistryOp)
    (hadds : ∀ kind k, ops.countP (·.adds kind k) < 2 ^ 64) :
    let run := (registryMachine capacity).run empty ops
    let A := ((specMachine capacity).run ⟨0, 0⟩ ops).1
    run.2 = ((specMachine capacity).run ⟨0, 0⟩ ops).2 ∧
      (run.1.entries.map ServiceDescriptionEntry.ids).Nodup ∧
      (∀ e ∈ run.1.entries, ∀ kind, e.count kind = (A.get kind).count e.ids) ∧
      (∀ k, k ∉ run.1.entries.map ServiceDescriptionEntry.ids → ∀ kind, (A.get kind).count k = 0) ∧
      (∀ e ∈ run.1.entries, 0 < e.publisherCount + e.serverCount) ∧
      (run.1.freeIndex = noIndex capacity ∨
        run.1.serviceDescriptions[run.1.freeIndex]? = some none) ∧
      (∀ sd kind, (run.1.add sd kind).2 = .error .serviceRegistryFull ↔
        sd.ids ∉ run.1.entries.map ServiceDescriptionEntry.ids ∧ run.1.entries.length = capacity) ∧
      ∀ service instanceId event, (run.1.find service instanceId event).Nodup ∧
        ∀ e, e ∈ run.1.find service instanceId event ↔
          e ∈ run.1.entries ∧ Matches service instanceId event e = true := by
  dsimp only
  obtain ⟨hresults, hinv, hspec⟩ := simulation_specMachine.run ops ⟨inv_empty, toSpec_empty⟩
    (Spec.admits_countFits capacity ops ⟨0, 0⟩ fun kind k ↦ by
      cases kind <;> simpa [Spec.get] using hadds _ k)
  refine ⟨hresults, hinv.nodup, fun e he kind ↦ ?_, fun k hk kind ↦ ?_, hinv.positive,
    hinv.freeIndex, hinv.add_eq_error_iff, fun service instanceId event ↦
      ⟨hinv.nodup_find service instanceId event, fun _ ↦ mem_find⟩⟩
  · rw [← hspec, hinv.count_get_toSpec he]
  · rw [← hspec, count_get_toSpec_of_not_mem hk]

/-- Two publishers and a server of `Radar`/`FrontLeft`/`Objects` on a registry of two slots, and
one of the publishers removed: the entry counts what the multisets hold. -/
theorem serviceRegistry_refines_multisets_of_radar :
    let radar : ServiceDescription :=
      ⟨IoxString.truncateWithCount (some "Radar".toList) 5,
        IoxString.truncateWithCount (some "FrontLeft".toList) 9,
        IoxString.truncateWithCount (some "Objects".toList) 7, ⟨#[0, 0, 0, 0], rfl⟩, .worldwide,
        .internal⟩
    let ops := [RegistryOp.addPublisher radar, .addPublisher radar, .addServer radar,
      .removePublisher radar]
    (∀ kind k, ops.countP (·.adds kind k) < 2 ^ 64) ∧
      ∀ e ∈ ((registryMachine 2).run empty ops).1.entries, ∀ kind,
        e.count kind = (((specMachine 2).run ⟨0, 0⟩ ops).1.get kind).count e.ids := by
  intro radar ops
  have hadds : ∀ kind k, ops.countP (·.adds kind k) < 2 ^ 64 := fun _ _ ↦
    List.countP_le_length.trans_lt (by decide)
  exact ⟨hadds, (@serviceRegistry_refines_multisets 2 ops hadds).2.2.1⟩

/-! ### Past `2^64` adds -/

/-- The first add of `sd` as a publisher appends its entry, counted once. -/
theorem add_publisher_empty (sd : ServiceDescription) :
    (empty : ServiceRegistry (capacity + 1)).add sd .publisher =
      (⟨[some ⟨sd, 1, 0⟩], Nat.le_add_left 1 capacity, noIndex (capacity + 1), true⟩, .ok ()) := by
  simp [ServiceRegistry.add, empty, findIndex, noIndex, ServiceDescriptionEntry.new,
    ServiceDescriptionEntry.setCount]

/-- An add of `sd` as a publisher to a registry whose one slot holds `sd` with `p` publishers
counts one more, in `uint64_t`. -/
theorem add_publisher_single (sd : ServiceDescription) (p : ℕ) :
    (⟨[some ⟨sd, p, 0⟩], Nat.le_add_left 1 capacity, noIndex (capacity + 1), true⟩ :
        ServiceRegistry (capacity + 1)).add sd .publisher =
      (⟨[some ⟨sd, (p + 1) % 2 ^ 64, 0⟩], Nat.le_add_left 1 capacity, noIndex (capacity + 1),
        true⟩, .ok ()) := by
  have hbeq : sd.beq sd = true := ServiceDescription.beq_iff.2 rfl
  simp [ServiceRegistry.add, findIndex, noIndex, setSlot, hbeq, ServiceDescriptionEntry.setCount,
    ServiceDescriptionEntry.count]

/-- **`n` more adds of `sd` as a publisher** all succeed and count on modulo `2^64`. -/
theorem run_addPublisher_single (sd : ServiceDescription) :
    ∀ (n p : ℕ), p < 2 ^ 64 →
      (registryMachine (capacity + 1)).run
          ⟨[some ⟨sd, p, 0⟩], Nat.le_add_left 1 capacity, noIndex (capacity + 1), true⟩
          (List.replicate n (.addPublisher sd)) =
        (⟨[some ⟨sd, (p + n) % 2 ^ 64, 0⟩], Nat.le_add_left 1 capacity, noIndex (capacity + 1),
          true⟩, List.replicate n (.ok ()))
  | 0, p, hp => by
    simp only [Nat.add_zero, Nat.mod_eq_of_lt hp, List.replicate_zero, Machine.run_nil]
  | n + 1, p, _ => by
    have hstep : (registryMachine (capacity + 1)).step
        ⟨[some ⟨sd, p, 0⟩], Nat.le_add_left 1 capacity, noIndex (capacity + 1), true⟩
        (.addPublisher sd) =
        (⟨[some ⟨sd, (p + 1) % 2 ^ 64, 0⟩], Nat.le_add_left 1 capacity, noIndex (capacity + 1),
          true⟩, .ok ()) :=
      add_publisher_single sd p
    rw [List.replicate_succ, Machine.run_cons, hstep,
      run_addPublisher_single sd n _ (Nat.mod_lt _ (by decide)), Nat.mod_add_mod,
      show p + 1 + n = p + (n + 1) by omega, List.replicate_succ]

/-- **After `2^64` adds the counter has wrapped.** On a registry of any capacity, `2^64` adds of
one description as a publisher all succeed; then `((*entry).*count)++` has wrapped the
`uint64_t` publisher count to `0`, and the entry stays with no publisher and no server. -/
theorem run_addPublisher_wraps (sd : ServiceDescription) :
    ((registryMachine (capacity + 1)).run empty (List.replicate (2 ^ 64) (.addPublisher sd))).2 =
        List.replicate (2 ^ 64) (.ok ()) ∧
      ((registryMachine (capacity + 1)).run empty
        (List.replicate (2 ^ 64) (.addPublisher sd))).1.entries = [⟨sd, 0, 0⟩] := by
  have hops : List.replicate (2 ^ 64) (RegistryOp.addPublisher sd) =
      .addPublisher sd :: List.replicate (2 ^ 64 - 1) (.addPublisher sd) :=
    List.replicate_succ
  have hres : List.replicate (2 ^ 64) (.ok () : Except ServiceRegistryError Unit) =
      .ok () :: List.replicate (2 ^ 64 - 1) (.ok ()) :=
    List.replicate_succ
  have hfirst : (registryMachine (capacity + 1)).step empty (.addPublisher sd) =
      (⟨[some ⟨sd, 1, 0⟩], Nat.le_add_left 1 capacity, noIndex (capacity + 1), true⟩, .ok ()) :=
    add_publisher_empty sd
  rw [hops, hres, Machine.run_cons, hfirst, run_addPublisher_single sd _ 1 (by decide)]
  exact ⟨rfl, rfl⟩

/-- A registry of one slot, and `2 ^ 64` offers of one radar service: every add succeeds, and the
entry is left with no publisher. -/
theorem serviceRegistry_counter_wraps :
    let radar : ServiceDescription :=
      ⟨IoxString.truncateWithCount (some "Radar".toList) 5,
        IoxString.truncateWithCount (some "FrontLeft".toList) 9,
        IoxString.truncateWithCount (some "Objects".toList) 7, ⟨#[0, 0, 0, 0], rfl⟩, .worldwide,
        .internal⟩
    ((registryMachine 1).run empty (List.replicate (2 ^ 64) (.addPublisher radar))).2 =
        List.replicate (2 ^ 64) (.ok ()) ∧
      ((registryMachine 1).run empty
        (List.replicate (2 ^ 64) (.addPublisher radar))).1.entries = [⟨radar, 0, 0⟩] := by
  intro radar
  exact @run_addPublisher_wraps 0 radar

end ServiceRegistry

end Roudi

end Iox
