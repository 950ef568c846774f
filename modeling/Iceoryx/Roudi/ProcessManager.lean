import Mathlib.Data.List.Nodup
import Mathlib.Tactic.SplitIfs
import Iceoryx.Container.FixedPositionContainerRefinement
import Iceoryx.Data.IndexFilter
import Iceoryx.Data.UniqueMatch
import Iceoryx.Machine.Run

/-!
# `ProcessManager`: registered processes and their heartbeats

RouDi's `ProcessManager` (`process_manager.cpp`) keeps the registered processes in
`m_processList`, an `iox::list<Process, MAX_PROCESS_NUMBER>`, and the heartbeats of the monitored
ones in `m_heartbeatPool`, a `FixedPositionContainer<Heartbeat, MAX_PROCESS_NUMBER>`; a process
names its heartbeat by its position, and an unmonitored one by `HeartbeatPool::Index::INVALID`.

* `registerProcess` removes a registered process of the same name first
  (`searchForProcessAndRemoveIt`) and then calls `addProcess`, which refuses an incompatible
  version and a full list, and otherwise places a heartbeat for a monitored process and appends
  the process;
* `removeProcessAndDeleteRespectiveSharedMemoryObjects` deletes the process's ports, erases its
  heartbeat when its index names one, and erases it from the list;
* `monitorProcesses` walks the heartbeat pool and removes the process of every heartbeat older
  than `PROCESS_KEEP_ALIVE_TIMEOUT`, or erases the heartbeat when no process names it.

## The model

The list is a `List` in its order. The heartbeat pool is its map of positions (`Positions`, which
`FixedPositionContainer` refines): `emplace` takes the least free position and answers
`MAX_PROCESS_NUMBER`, the index of `end()` and of `Index::INVALID`, when none is free. A heartbeat
is only its position here; how old it is when `monitorProcesses` reads it is an argument,
`elapsed`, as is the result of `VersionInfo::checkCompatibility`. The loop of `monitorProcesses`
moves its iterator on before it erases the current heartbeat and erases no other, so it visits
the positions that were used when it started. Calls to `PortManager::deletePortsOfProcess` are
recorded; the IPC messages, the introspection and the log are left out.

## What is proved

`Inv`: the names are pairwise distinct, at most `MAX_PROCESS_NUMBER` processes are registered, and
the monitored processes and the used heartbeat positions are in bijection through the heartbeat
index. It holds after every sequence of calls (`inv_run`). From such a state `addProcess` always
finds a free heartbeat position (`emplace_lt`), `registerProcess` returns `true` exactly when the
version is compatible and fewer than `MAX_PROCESS_NUMBER` processes remain after the removal of
one of the same name (`registerProcess_snd`), and `monitorProcesses` removes exactly the processes
whose heartbeat is older than the timeout, deleting the ports of each once
(`monitorProcesses_removed`). The loop's turns compose as removals do (`Removed.trans`), so the
whole loop is the removal of all its turns.
-/

namespace Iox.Roudi

open Function (update)
open UniqueMatch (AtMostOne)

/-- A `Process`, with the fields the process manager reads. -/
structure Process (Name : Type*) where
  /-- `getName()` -/
  name : Name
  /-- `getPid()` -/
  pid : ℕ
  /-- `getHeartbeatPoolIndex()` -/
  heartbeatPoolIndex : ℕ
  deriving DecidableEq, Repr

/-- `Process::isMonitored`: the heartbeat index is not `HeartbeatPool::Index::INVALID`, which is
`MAX_PROCESS_NUMBER`. -/
def Process.isMonitored {Name : Type*} (p : Process Name) (maxProcessNumber : ℕ) : Bool :=
  p.heartbeatPoolIndex != maxProcessNumber

/-- The `ProcessManager`'s two containers and the ports it had deleted. -/
structure ProcessManager (Name : Type*) where
  /-- `m_processList`, in list order. -/
  processList : List (Process Name)
  /-- `m_heartbeatPool`, as its map of positions: `some ()` where a heartbeat lives. -/
  heartbeatPool : ℕ → Option Unit
  /-- The names passed to `PortManager::deletePortsOfProcess`, in order. -/
  deletedPorts : List Name

namespace ProcessManager

variable {Name : Type*} [DecidableEq Name] (maxProcessNumber : ℕ)

/-- A process manager with no process and a fresh heartbeat pool. -/
def new : ProcessManager Name := ⟨[], fun _ ↦ none, []⟩

/-- `findProcess(name)`: the first process of the list with that name. -/
def findProcess (pm : ProcessManager Name) (name : Name) : Option (Process Name) :=
  pm.processList.find? (·.name == name)

/-- `m_heartbeatPool->erase(m_heartbeatPool->iter_from_index(index))` when that iterator is not
`end()`: `Positions.erase` fails exactly when the index names no heartbeat, and the pool stays. -/
def eraseHeartbeat (pool : ℕ → Option Unit) (index : ℕ) : ℕ → Option Unit :=
  match Container.Positions.erase maxProcessNumber pool index with
  | .ok (pool', _) => pool'
  | .error _ => pool

/-- `removeProcessAndDeleteRespectiveSharedMemoryObjects` at the first process of the list with
`p`: its ports are deleted, its heartbeat erased, and the process erased from the list; `none`
when no process has `p`, where the iterator is `end()`. -/
def removeFirst (pm : ProcessManager Name) (p : Process Name → Bool) :
    Option (ProcessManager Name) :=
  (pm.processList.find? p).map fun process ↦
    { processList := pm.processList.eraseP p
      heartbeatPool := eraseHeartbeat maxProcessNumber pm.heartbeatPool process.heartbeatPoolIndex
      deletedPorts := pm.deletedPorts ++ [process.name] }

/-- `searchForProcessAndRemoveIt(name)`: whether a process of that name was found and removed. -/
def searchForProcessAndRemoveIt (pm : ProcessManager Name) (name : Name) :
    ProcessManager Name × Bool :=
  match removeFirst maxProcessNumber pm (·.name == name) with
  | some pm' => (pm', true)
  | none => (pm, false)

/-- `addProcess`, with `compatible` the result of `VersionInfo::checkCompatibility`. -/
def addProcess (pm : ProcessManager Name) (name : Name) (pid : ℕ) (isMonitored compatible : Bool) :
    ProcessManager Name × Bool :=
  if !compatible then (pm, false)
  -- overflow check
  else if maxProcessNumber ≤ pm.processList.length then (pm, false)
  else
    let (heartbeatPool, heartbeatPoolIndex) :=
      if isMonitored then Container.Positions.emplace maxProcessNumber pm.heartbeatPool ()
      else (pm.heartbeatPool, maxProcessNumber)
    ({ pm with
      heartbeatPool
      processList := pm.processList ++ [⟨name, pid, heartbeatPoolIndex⟩] }, true)

/-- `registerProcess`: a process of the same name is removed first, and the registration is
tried again only when the removal succeeded. -/
def registerProcess (pm : ProcessManager Name) (name : Name) (pid : ℕ)
    (isMonitored compatible : Bool) : ProcessManager Name × Bool :=
  match findProcess pm name with
  | some _ =>
    match searchForProcessAndRemoveIt maxProcessNumber pm name with
    | (pm', true) => addProcess maxProcessNumber pm' name pid isMonitored compatible
    | (pm', false) => (pm', false)
  | none => addProcess maxProcessNumber pm name pid isMonitored compatible

/-- `unregisterProcess(name)`. -/
def unregisterProcess (pm : ProcessManager Name) (name : Name) : ProcessManager Name × Bool :=
  searchForProcessAndRemoveIt maxProcessNumber pm name

/-- The used positions of the heartbeat pool in ascending order: what the pool's iterator visits
from `begin()`. -/
def usedSlots (pool : ℕ → Option Unit) : List ℕ :=
  (List.range maxProcessNumber).filter fun i ↦ (pool i).isSome

/-- One turn of the loop of `monitorProcesses`, at the heartbeat at `index`: when it is older than
`timeout`, the process naming it is removed, or the heartbeat erased when no process names it. -/
def monitorHeartbeat (timeout : ℕ) (elapsed : ℕ → ℕ) (pm : ProcessManager Name) (index : ℕ) :
    ProcessManager Name :=
  if timeout < elapsed index then
    match removeFirst maxProcessNumber pm (·.heartbeatPoolIndex == index) with
    | some pm' => pm'
    | none => { pm with heartbeatPool := eraseHeartbeat maxProcessNumber pm.heartbeatPool index }
  else pm

/-- `monitorProcesses()`, with `timeout` the milliseconds of `PROCESS_KEEP_ALIVE_TIMEOUT` and
`elapsed index` the milliseconds since the last beat of the heartbeat at `index`. -/
def monitorProcesses (timeout : ℕ) (elapsed : ℕ → ℕ) (pm : ProcessManager Name) :
    ProcessManager Name :=
  (usedSlots maxProcessNumber pm.heartbeatPool).foldl
    (monitorHeartbeat maxProcessNumber timeout elapsed) pm

/-- A call on the process manager. -/
inductive Request (Name : Type*) where
  | registerProcess (name : Name) (pid : ℕ) (isMonitored compatible : Bool)
  | unregisterProcess (name : Name)
  | monitorProcesses (elapsed : ℕ → ℕ)

/-- One call and what it returns. -/
def step (timeout : ℕ) (pm : ProcessManager Name) : Request Name → ProcessManager Name × Option Bool
  | .registerProcess name pid isMonitored compatible =>
    let (pm', registered) := registerProcess maxProcessNumber pm name pid isMonitored compatible
    (pm', some registered)
  | .unregisterProcess name =>
    let (pm', unregistered) := unregisterProcess maxProcessNumber pm name
    (pm', some unregistered)
  | .monitorProcesses elapsed => (monitorProcesses maxProcessNumber timeout elapsed pm, none)

/-- The process manager as a machine of calls. -/
def machine (timeout : ℕ) : Machine (ProcessManager Name) (Request Name) (Option Bool) :=
  ⟨step maxProcessNumber timeout⟩

/-! ## The invariant -/

section Invariant

omit [DecidableEq Name]

/-- What the process manager keeps between calls. -/
structure Inv (pm : ProcessManager Name) : Prop where
  /-- No two registered processes have the same name. -/
  nodup_names : (pm.processList.map (·.name)).Nodup
  /-- At most `MAX_PROCESS_NUMBER` processes are registered. -/
  length_le : pm.processList.length ≤ maxProcessNumber
  /-- A process is unmonitored, with the index `INVALID`, or names a used heartbeat. -/
  heartbeat : ∀ p ∈ pm.processList, p.heartbeatPoolIndex = maxProcessNumber ∨
    p.heartbeatPoolIndex < maxProcessNumber ∧ (pm.heartbeatPool p.heartbeatPoolIndex).isSome
  /-- No two monitored processes name the same heartbeat. -/
  nodup_indices :
    ((pm.processList.filter (·.isMonitored maxProcessNumber)).map (·.heartbeatPoolIndex)).Nodup
  /-- Every used heartbeat lies in the pool and is named by a process. -/
  owned : ∀ i, (pm.heartbeatPool i).isSome →
    i < maxProcessNumber ∧ ∃ p ∈ pm.processList, p.heartbeatPoolIndex = i

theorem inv_new : Inv maxProcessNumber (new : ProcessManager Name) where
  nodup_names := List.nodup_nil
  length_le := Nat.zero_le _
  heartbeat := nofun
  nodup_indices := List.nodup_nil
  owned := nofun

variable {maxProcessNumber} {pm : ProcessManager Name}

namespace Inv

theorem nodup (h : Inv maxProcessNumber pm) : pm.processList.Nodup :=
  h.nodup_names.of_map _

/-- At most one process names a heartbeat position of the pool. -/
theorem atMostOne_index (h : Inv maxProcessNumber pm) {i : ℕ} (hi : i < maxProcessNumber) :
    AtMostOne (·.heartbeatPoolIndex == i) pm.processList := by
  intro x hx y hy hxi hyi
  -- both name `i`, which is not `INVALID`, so both are monitored
  have hmon : ∀ z : Process Name, z.heartbeatPoolIndex = i → z.isMonitored maxProcessNumber = true := by
    intro z hz
    simp only [Process.isMonitored, hz, bne_iff_ne, ne_eq]
    omega
  have hx' : x ∈ pm.processList.filter (·.isMonitored maxProcessNumber) :=
    List.mem_filter.2 ⟨hx, hmon x (eq_of_beq hxi)⟩
  have hy' : y ∈ pm.processList.filter (·.isMonitored maxProcessNumber) :=
    List.mem_filter.2 ⟨hy, hmon y (eq_of_beq hyi)⟩
  exact List.inj_on_of_nodup_map h.nodup_indices hx' hy' (by rw [eq_of_beq hxi, eq_of_beq hyi])

theorem lt_of_isSome (h : Inv maxProcessNumber pm) {i : ℕ} (hi : (pm.heartbeatPool i).isSome) :
    i < maxProcessNumber :=
  (h.owned i hi).1

end Inv

/-- Erasing a heartbeat empties its position, when every used position lies in the pool: at an
unused position `Positions.erase` fails and the pool, empty there, stays. -/
theorem eraseHeartbeat_eq {pool : ℕ → Option Unit} {i : ℕ}
    (h : (pool i).isSome → i < maxProcessNumber) :
    eraseHeartbeat maxProcessNumber pool i = update pool i none := by
  unfold eraseHeartbeat Container.Positions.erase
  by_cases hused : (pool i).isSome
  · have hne : pool i ≠ none := Option.isSome_iff_ne_none.1 hused
    simp [h hused, hne]
  · have hnone : pool i = none := by simpa using hused
    have hstay : update pool i none = pool := Function.update_eq_self_iff.2 hnone.symm
    have hfree : (pool i).isNone = true := by simp [hnone]
    by_cases hlt : i < maxProcessNumber
    · rw [if_neg (not_not.2 hlt), if_pos hfree]
      exact hstay.symm
    · rw [if_pos hlt]
      exact hstay.symm

/-- **The invariant survives freeing a heartbeat position** together with the processes that name
it: `keep` drops only processes naming `i`, and every process naming `i`, when `i` lies in the
pool. -/
theorem Inv.free (h : Inv maxProcessNumber pm) (keep : Process Name → Bool) (i : ℕ)
    (hdrop : ∀ p ∈ pm.processList, keep p = false → p.heartbeatPoolIndex = i)
    (hkeep : ∀ p ∈ pm.processList, p.heartbeatPoolIndex = i → i < maxProcessNumber →
      keep p = false)
    (deletedPorts : List Name) :
    Inv maxProcessNumber ⟨pm.processList.filter keep, update pm.heartbeatPool i none,
      deletedPorts⟩ where
  nodup_names := h.nodup_names.sublist (List.filter_sublist.map _)
  length_le := Nat.le_trans (List.length_filter_le _ _) h.length_le
  heartbeat := by
    intro p hp
    obtain ⟨hp, hkept⟩ := List.mem_filter.1 hp
    rcases h.heartbeat p hp with hinv | ⟨hlt, hused⟩
    · exact .inl hinv
    · -- a kept process does not name the freed position
      have hne : p.heartbeatPoolIndex ≠ i := fun heq ↦ by
        rw [hkeep p hp heq (heq ▸ hlt)] at hkept
        cases hkept
      exact .inr ⟨hlt, by simpa [Function.update_of_ne hne] using hused⟩
  nodup_indices := by
    exact h.nodup_indices.sublist ((List.filter_sublist.filter _).map _)
  owned := by
    intro j hj
    have hne : j ≠ i := fun heq ↦ by simp [heq] at hj
    obtain ⟨hlt, p, hp, hpj⟩ := h.owned j (by simpa [Function.update_of_ne hne] using hj)
    -- the owner is kept, since only processes naming `i` are dropped
    have hkept : keep p = true := by
      by_contra hdropped
      exact hne (hpj ▸ hdrop p hp (by simpa using hdropped))
    exact ⟨hlt, p, List.mem_filter.2 ⟨hp, hkept⟩, hpj⟩

/-- **Every used heartbeat belongs to exactly one process.** -/
theorem Inv.existsUnique_owner (h : Inv maxProcessNumber pm) {i : ℕ}
    (hi : (pm.heartbeatPool i).isSome) : ∃! p, p ∈ pm.processList ∧ p.heartbeatPoolIndex = i := by
  obtain ⟨hlt, p, hp, hpi⟩ := h.owned i hi
  refine ⟨p, ⟨hp, hpi⟩, fun q ⟨hq, hqi⟩ ↦ ?_⟩
  exact h.atMostOne_index hlt q hq p hp (by simp [hqi]) (by simp [hpi])

end Invariant

variable {maxProcessNumber} {pm : ProcessManager Name}

theorem Inv.atMostOne_name (h : Inv maxProcessNumber pm) (name : Name) :
    AtMostOne (·.name == name) pm.processList :=
  UniqueMatch.atMostOne_of_nodup_map h.nodup_names name

/-! ## Removing a process by its name -/

/-- `removeProcessAndDeleteRespectiveSharedMemoryObjects` at the process `findProcess` finds: it
drops every process of that name, frees the process's heartbeat position and deletes its ports. -/
theorem removeFirst_name {name : Name} {process : Process Name} (h : Inv maxProcessNumber pm)
    (hfind : findProcess pm name = some process) :
    removeFirst maxProcessNumber pm (·.name == name) =
      some ⟨pm.processList.filter (·.name != name),
        update pm.heartbeatPool process.heartbeatPoolIndex none, pm.deletedPorts ++ [name]⟩ := by
  rw [findProcess] at hfind
  have hname : process.name = name := by simpa using List.find?_some hfind
  rw [removeFirst, hfind, Option.map_some, hname,
    UniqueMatch.eraseP_eq_filter h.nodup (h.atMostOne_name name),
    eraseHeartbeat_eq (fun hused ↦ h.lt_of_isSome hused)]
  rfl

/-- `searchForProcessAndRemoveIt` finds no process of a name that is not registered. -/
theorem searchForProcessAndRemoveIt_of_none {name : Name} (hfind : findProcess pm name = none) :
    searchForProcessAndRemoveIt maxProcessNumber pm name = (pm, false) := by
  rw [findProcess] at hfind
  rw [searchForProcessAndRemoveIt, removeFirst, hfind, Option.map_none]

/-- After `searchForProcessAndRemoveIt` the processes of the other names remain. -/
theorem searchForProcessAndRemoveIt_processList (h : Inv maxProcessNumber pm) (name : Name) :
    (searchForProcessAndRemoveIt maxProcessNumber pm name).1.processList =
      pm.processList.filter (·.name != name) := by
  cases hfind : findProcess pm name with
  | some process => rw [searchForProcessAndRemoveIt, removeFirst_name h hfind]
  | none =>
    rw [searchForProcessAndRemoveIt_of_none hfind, eq_comm, List.filter_eq_self]
    rw [findProcess, List.find?_eq_none] at hfind
    exact fun p hp ↦ by simpa using hfind p hp

theorem Inv.searchForProcessAndRemoveIt (h : Inv maxProcessNumber pm) (name : Name) :
    Inv maxProcessNumber (searchForProcessAndRemoveIt maxProcessNumber pm name).1 := by
  cases hfind : findProcess pm name with
  | none => rwa [searchForProcessAndRemoveIt_of_none hfind]
  | some process =>
    rw [ProcessManager.searchForProcessAndRemoveIt, removeFirst_name h hfind]
    have hmem : process ∈ pm.processList := List.mem_of_find?_eq_some hfind
    have hname : process.name = name := by
      simpa using List.find?_some (show pm.processList.find? (·.name == name) = some process from hfind)
    refine h.free _ _ (fun p hp hdrop ↦ ?_) (fun p hp hindex hlt ↦ ?_) _
    · -- the only process of that name is `process`
      rw [h.atMostOne_name name p hp process hmem (by simpa using hdrop) (by simp [hname])]
    · -- the only process naming `process`'s heartbeat is `process`
      have hsame := h.atMostOne_index hlt p hp process hmem (by simp [hindex]) (by simp)
      simp [hsame, hname]

/-! ## Adding a process -/

section Add

omit [DecidableEq Name]

/-- `pool'` and `index` are what `addProcess` can make of the heartbeat pool `pool`: no heartbeat
and the index `INVALID`, or a heartbeat at a free position `index`. -/
def Placed (maxProcessNumber : ℕ) (pool pool' : ℕ → Option Unit) (index : ℕ) : Prop :=
  index = maxProcessNumber ∧ pool' = pool ∨
    index < maxProcessNumber ∧ pool index = none ∧ pool' = update pool index (some ())

theorem placed_emplace {pool pool' : ℕ → Option Unit} {index : ℕ}
    (hem : Container.Positions.emplace maxProcessNumber pool () = (pool', index)) :
    Placed maxProcessNumber pool pool' index := by
  unfold Container.Positions.emplace at hem
  cases hfree : Container.Positions.leastFree maxProcessNumber pool with
  | none =>
    rw [hfree, Prod.mk.injEq] at hem
    exact .inl ⟨hem.2.symm, hem.1.symm⟩
  | some i =>
    rw [hfree, Prod.mk.injEq] at hem
    obtain ⟨hlt, hnone, -⟩ := Container.Positions.leastFree_eq_some_iff.1 hfree
    obtain ⟨rfl, rfl⟩ := hem
    exact .inr ⟨hlt, hnone, rfl⟩

/-- **`emplace` in `addProcess` finds a free heartbeat position**: past the size check fewer than
`MAX_PROCESS_NUMBER` processes are registered, and they name fewer positions than the pool has. -/
theorem emplace_lt (h : Inv maxProcessNumber pm)
    (hlen : pm.processList.length < maxProcessNumber) :
    (Container.Positions.emplace maxProcessNumber pm.heartbeatPool ()).2 < maxProcessNumber := by
  unfold Container.Positions.emplace
  cases hfree : Container.Positions.leastFree maxProcessNumber pm.heartbeatPool with
  | some i => exact (Container.Positions.leastFree_eq_some_iff.1 hfree).1
  | none =>
    exfalso
    -- every position is used, so named by its own monitored process
    have hall := Container.Positions.leastFree_eq_none_iff.1 hfree
    have hsub : List.range maxProcessNumber ⊆
        (pm.processList.filter (·.isMonitored maxProcessNumber)).map (·.heartbeatPoolIndex) := by
      intro i hi
      have hi : i < maxProcessNumber := List.mem_range.1 hi
      obtain ⟨-, p, hp, hpi⟩ := h.owned i (hall i hi)
      have hmon : p.isMonitored maxProcessNumber = true := by
        simp only [Process.isMonitored, hpi, bne_iff_ne, ne_eq]
        omega
      exact List.mem_map.2 ⟨p, List.mem_filter.2 ⟨hp, hmon⟩, hpi⟩
    have hcount := List.nodup_range.length_le_of_subset hsub
    rw [List.length_range, List.length_map] at hcount
    have hfilter := List.length_filter_le (·.isMonitored maxProcessNumber) pm.processList
    omega

/-- `addProcess` past its checks appends the process, with the heartbeat it placed. -/
theorem addProcess_of_lt (name : Name) (pid : ℕ) (isMonitored : Bool)
    (hlen : pm.processList.length < maxProcessNumber) :
    ∃ pool' index, Placed maxProcessNumber pm.heartbeatPool pool' index ∧
      addProcess maxProcessNumber pm name pid isMonitored true =
        (⟨pm.processList ++ [⟨name, pid, index⟩], pool', pm.deletedPorts⟩, true) := by
  have hfits : ¬maxProcessNumber ≤ pm.processList.length := Nat.not_le.2 hlen
  cases isMonitored with
  | false =>
    exact ⟨pm.heartbeatPool, maxProcessNumber, .inl ⟨rfl, rfl⟩, by simp [addProcess, hfits]⟩
  | true =>
    rcases hem : Container.Positions.emplace maxProcessNumber pm.heartbeatPool () with
      ⟨pool', index⟩
    exact ⟨pool', index, placed_emplace hem, by simp [addProcess, hfits, hem]⟩

theorem addProcess_snd (name : Name) (pid : ℕ) (isMonitored compatible : Bool) :
    (addProcess maxProcessNumber pm name pid isMonitored compatible).2 =
      (compatible && decide (pm.processList.length < maxProcessNumber)) := by
  cases compatible with
  | false => simp [ProcessManager.addProcess]
  | true =>
    by_cases hfits : pm.processList.length < maxProcessNumber
    · obtain ⟨_, _, _, hadd⟩ := addProcess_of_lt name pid isMonitored hfits
      simp [hadd, hfits]
    · simp [ProcessManager.addProcess, Nat.le_of_not_lt hfits, hfits]

/-- **The invariant survives appending a process** of a new name, with the heartbeat placed for
it. -/
theorem Inv.append {name : Name} {pid index : ℕ} {pool' : ℕ → Option Unit}
    (h : Inv maxProcessNumber pm) (hname : ∀ p ∈ pm.processList, p.name ≠ name)
    (hlen : pm.processList.length < maxProcessNumber)
    (hplaced : Placed maxProcessNumber pm.heartbeatPool pool' index) :
    Inv maxProcessNumber ⟨pm.processList ++ [⟨name, pid, index⟩], pool', pm.deletedPorts⟩ where
  nodup_names := by
    rw [List.map_append, List.map_singleton, List.nodup_append]
    refine ⟨h.nodup_names, List.nodup_singleton _, fun a ha b hb ↦ ?_⟩
    rw [List.mem_singleton] at hb
    obtain ⟨p, hp, rfl⟩ := List.mem_map.1 ha
    exact hb ▸ hname p hp
  length_le := by
    rw [List.length_append, List.length_singleton]
    omega
  heartbeat := by
    -- a placed heartbeat keeps every used position used
    have hkeep : ∀ i, (pm.heartbeatPool i).isSome → (pool' i).isSome := by
      intro i hi
      rcases hplaced with ⟨-, rfl⟩ | ⟨-, -, rfl⟩
      · exact hi
      · by_cases hidx : i = index
        · simp [hidx]
        · rwa [Function.update_of_ne hidx]
    intro p hp
    rcases List.mem_append.1 hp with hp | hp
    · exact (h.heartbeat p hp).imp_right fun ⟨hlt, hused⟩ ↦ ⟨hlt, hkeep _ hused⟩
    · rw [List.mem_singleton] at hp
      subst hp
      rcases hplaced with ⟨hinv, -⟩ | ⟨hlt, -, rfl⟩
      · exact .inl hinv
      · exact .inr ⟨hlt, by simp⟩
  nodup_indices := by
    rw [List.filter_append, List.map_append, List.nodup_append]
    refine ⟨h.nodup_indices, (List.nodup_singleton _).sublist ((List.filter_sublist).map _), ?_⟩
    -- a monitored new process has a free position, which no registered process names
    simp only [List.mem_map, List.mem_filter, List.mem_singleton]
    rintro _ ⟨p, ⟨hp, hmon⟩, rfl⟩ _ ⟨_, ⟨rfl, hnew⟩, rfl⟩ hsame
    rcases hplaced with ⟨hinv, -⟩ | ⟨-, hfree, -⟩
    · simp [Process.isMonitored, hinv] at hnew
    · rcases h.heartbeat p hp with hinv | ⟨-, hused⟩
      · simp [Process.isMonitored, hinv] at hmon
      · simp [hsame, hfree] at hused
  owned := by
    intro i hi
    rcases hplaced with ⟨-, rfl⟩ | ⟨hlt, -, rfl⟩
    · obtain ⟨hlt, p, hp, hpi⟩ := h.owned i hi
      exact ⟨hlt, p, List.mem_append_left _ hp, hpi⟩
    · by_cases hidx : i = index
      · exact ⟨hidx ▸ hlt, _, List.mem_append_right _ (List.mem_singleton_self _), hidx.symm⟩
      · obtain ⟨hlt, p, hp, hpi⟩ := h.owned i (by simpa [Function.update_of_ne hidx] using hi)
        exact ⟨hlt, p, List.mem_append_left _ hp, hpi⟩

theorem Inv.addProcess (h : Inv maxProcessNumber pm) {name : Name}
    (hname : ∀ p ∈ pm.processList, p.name ≠ name) (pid : ℕ) (isMonitored compatible : Bool) :
    Inv maxProcessNumber (addProcess maxProcessNumber pm name pid isMonitored compatible).1 := by
  -- a refused call leaves the process manager as it was
  cases compatible with
  | false => simpa [ProcessManager.addProcess] using h
  | true =>
    by_cases hlen : pm.processList.length < maxProcessNumber
    · obtain ⟨pool', index, hplaced, hadd⟩ := addProcess_of_lt name pid isMonitored hlen
      rw [hadd]
      exact h.append hname hlen hplaced
    · simpa [ProcessManager.addProcess, Nat.not_lt.1 hlen] using h

end Add

/-! ## Registering a process -/

/-- `registerProcess` is `addProcess` after `searchForProcessAndRemoveIt`: a found process is
always removed, so the registration is always tried again. -/
theorem registerProcess_eq_addProcess (name : Name) (pid : ℕ) (isMonitored compatible : Bool) :
    registerProcess maxProcessNumber pm name pid isMonitored compatible =
      addProcess maxProcessNumber (searchForProcessAndRemoveIt maxProcessNumber pm name).1 name pid
        isMonitored compatible := by
  unfold registerProcess searchForProcessAndRemoveIt removeFirst findProcess
  cases pm.processList.find? (·.name == name) <;> rfl

/-- **`registerProcess` returns `true` exactly when** the version is compatible and fewer than
`MAX_PROCESS_NUMBER` processes of other names are registered. -/
theorem registerProcess_snd (h : Inv maxProcessNumber pm) (name : Name) (pid : ℕ)
    (isMonitored compatible : Bool) :
    (registerProcess maxProcessNumber pm name pid isMonitored compatible).2 =
      (compatible && decide ((pm.processList.filter (·.name != name)).length < maxProcessNumber)) := by
  rw [registerProcess_eq_addProcess, addProcess_snd, searchForProcessAndRemoveIt_processList h]

theorem Inv.registerProcess (h : Inv maxProcessNumber pm) (name : Name) (pid : ℕ)
    (isMonitored compatible : Bool) :
    Inv maxProcessNumber (registerProcess maxProcessNumber pm name pid isMonitored compatible).1 := by
  rw [registerProcess_eq_addProcess]
  refine (h.searchForProcessAndRemoveIt name).addProcess (fun p hp ↦ ?_) pid isMonitored compatible
  rw [searchForProcessAndRemoveIt_processList h] at hp
  simpa using (List.mem_filter.1 hp).2

/-! ## Monitoring the heartbeats -/

/-- `pm'` is `pm` without the processes whose heartbeat position has `expired` and without those
heartbeats, and the ports of each removed process were deleted once. -/
structure Removed (expired : ℕ → Bool) (pm pm' : ProcessManager Name) : Prop where
  /-- The processes naming an expired position are gone, and only they. -/
  processList : pm'.processList = pm.processList.filter fun p ↦ !expired p.heartbeatPoolIndex
  /-- The expired positions are free, and every other position is as it was. -/
  heartbeatPool : ∀ i, pm'.heartbeatPool i = if expired i then none else pm.heartbeatPool i
  /-- `deletePortsOfProcess` was called once for each removed process, in some order. -/
  deletedPorts : ∃ removed, pm'.deletedPorts = pm.deletedPorts ++ removed ∧
    removed.Perm ((pm.processList.filter fun p ↦ expired p.heartbeatPoolIndex).map (·.name))

section Removed

omit [DecidableEq Name]

variable {expired expired' : ℕ → Bool} {pm' pm'' : ProcessManager Name}

theorem Removed.congr (h : Removed expired pm pm') (he : ∀ i, expired i = expired' i) :
    Removed expired' pm pm' := by
  obtain rfl : expired = expired' := funext he
  exact h

theorem removed_refl (pm : ProcessManager Name) : Removed (fun _ ↦ false) pm pm where
  processList := by simp
  heartbeatPool := by simp
  deletedPorts := ⟨[], by simp, by simp⟩

/-- **Removals compose**: removing the processes of the positions `expired`, then those of
`expired'`, removes those of either. -/
theorem Removed.trans (h : Removed expired pm pm') (h' : Removed expired' pm' pm'') :
    Removed (fun i ↦ expired i || expired' i) pm pm'' where
  processList := by
    rw [h'.processList, h.processList, List.filter_filter]
    exact List.filter_congr fun p _ ↦ by cases expired p.heartbeatPoolIndex <;> simp
  heartbeatPool := by
    intro i
    rw [h'.heartbeatPool, h.heartbeatPool]
    cases expired i <;> cases expired' i <;> rfl
  deletedPorts := by
    obtain ⟨removed, hports, hperm⟩ := h.deletedPorts
    obtain ⟨removed', hports', hperm'⟩ := h'.deletedPorts
    refine ⟨removed ++ removed', by rw [hports', hports, List.append_assoc], ?_⟩
    -- the second removal takes its processes from those the first one kept
    rw [h.processList, List.filter_filter] at hperm'
    refine ((hperm.append hperm').trans ?_).trans
      ((UniqueMatch.filter_append_filter_perm _ _ pm.processList).map _)
    rw [← List.map_append]

/-- **One turn of the loop of `monitorProcesses`**, at a position of the pool: when its heartbeat
is older than the timeout, the process naming it, if any, is removed with its ports, and the
position is freed. -/
theorem monitorHeartbeat_eq (h : Inv maxProcessNumber pm) {i : ℕ} (hi : i < maxProcessNumber)
    (timeout : ℕ) (elapsed : ℕ → ℕ) :
    monitorHeartbeat maxProcessNumber timeout elapsed pm i =
      if timeout < elapsed i then
        ⟨pm.processList.filter (·.heartbeatPoolIndex != i), update pm.heartbeatPool i none,
          pm.deletedPorts ++ (pm.processList.filter (·.heartbeatPoolIndex == i)).map (·.name)⟩
      else pm := by
  have hunique := h.atMostOne_index hi
  have herase : eraseHeartbeat maxProcessNumber pm.heartbeatPool i = update pm.heartbeatPool i none :=
    eraseHeartbeat_eq (h.lt_of_isSome ·)
  rw [monitorHeartbeat]
  split_ifs with hold
  · rw [UniqueMatch.filter_eq_toList_find? h.nodup hunique]
    cases hfind : pm.processList.find? (·.heartbeatPoolIndex == i) with
    | none =>
      -- no process names the position: only the heartbeat is erased
      have hkeep : pm.processList.filter (·.heartbeatPoolIndex != i) = pm.processList := by
        rw [List.filter_eq_self]
        intro p hp
        simpa using List.find?_eq_none.1 hfind p hp
      simp only [removeFirst, hfind, Option.map_none, hkeep, herase, Option.toList_none,
        List.map_nil, List.append_nil]
    | some process =>
      have hindex : process.heartbeatPoolIndex = i := by simpa using List.find?_some hfind
      simp only [removeFirst, hfind, Option.map_some, hindex, herase, Option.toList_some,
        List.map_cons, List.map_nil, UniqueMatch.eraseP_eq_filter h.nodup hunique]
      rfl
  · rfl

theorem monitorHeartbeat_removed (h : Inv maxProcessNumber pm) {i : ℕ} (hi : i < maxProcessNumber)
    (timeout : ℕ) (elapsed : ℕ → ℕ) :
    Inv maxProcessNumber (monitorHeartbeat maxProcessNumber timeout elapsed pm i) ∧
      Removed (fun j ↦ j == i && decide (timeout < elapsed j)) pm
        (monitorHeartbeat maxProcessNumber timeout elapsed pm i) := by
  rw [monitorHeartbeat_eq h hi]
  split_ifs with hold
  · refine ⟨h.free _ i (fun p _ hp ↦ by simpa using hp) (fun p _ hp _ ↦ by simp [hp]) _,
      List.filter_congr fun p _ ↦ ?_, fun j ↦ ?_,
      ⟨_, rfl, .of_eq (congrArg _ (List.filter_congr fun p _ ↦ ?_))⟩⟩
    · by_cases hp : p.heartbeatPoolIndex = i
      · simp [hp, hold]
      · simp [beq_false_of_ne hp, hp]
    · by_cases hj : j = i <;> simp [hj, hold]
    · by_cases hp : p.heartbeatPoolIndex = i
      · simp [hp, hold]
      · simp [beq_false_of_ne hp]
  · refine ⟨h, (removed_refl pm).congr fun j ↦ ?_⟩
    by_cases hj : j = i <;> simp [hj, hold]

/-- **The loop of `monitorProcesses`** over positions of the pool: the processes whose heartbeat
at one of them is older than the timeout are removed with their ports, and those heartbeats are
freed. -/
theorem foldl_monitorHeartbeat_removed (timeout : ℕ) (elapsed : ℕ → ℕ) :
    ∀ (indices : List ℕ) {pm : ProcessManager Name}, Inv maxProcessNumber pm →
      (∀ i ∈ indices, i < maxProcessNumber) →
      Inv maxProcessNumber (indices.foldl (monitorHeartbeat maxProcessNumber timeout elapsed) pm) ∧
        Removed (fun j ↦ decide (j ∈ indices) && decide (timeout < elapsed j)) pm
          (indices.foldl (monitorHeartbeat maxProcessNumber timeout elapsed) pm)
  | [], pm, h, _ => ⟨h, (removed_refl pm).congr fun j ↦ by simp⟩
  | i :: indices, pm, h, hlt => by
    obtain ⟨hinv, hstep⟩ := monitorHeartbeat_removed h (hlt i List.mem_cons_self) timeout elapsed
    obtain ⟨hinv', hrest⟩ :=
      foldl_monitorHeartbeat_removed timeout elapsed indices hinv fun j hj ↦ hlt j (List.mem_cons_of_mem i hj)
    refine ⟨hinv', (hstep.trans hrest).congr fun j ↦ ?_⟩
    by_cases hj : j = i <;> simp [hj]

/-- **`monitorProcesses` removes exactly the processes whose heartbeat is older than the
timeout**, deleting the ports of each once, and frees exactly the heartbeats older than the
timeout, those no process names among them. -/
theorem monitorProcesses_removed (h : Inv maxProcessNumber pm) (timeout : ℕ) (elapsed : ℕ → ℕ) :
    Inv maxProcessNumber (monitorProcesses maxProcessNumber timeout elapsed pm) ∧
      Removed (fun i ↦ (pm.heartbeatPool i).isSome && decide (timeout < elapsed i)) pm
        (monitorProcesses maxProcessNumber timeout elapsed pm) := by
  obtain ⟨hinv, hremoved⟩ := foldl_monitorHeartbeat_removed timeout elapsed
    (usedSlots maxProcessNumber pm.heartbeatPool) h fun i hi ↦ (IndexFilter.mem_filter_range.1 hi).1
  refine ⟨hinv, hremoved.congr fun i ↦ ?_⟩
  -- the used positions are the positions of the pool that are used
  have hused : i ∈ usedSlots maxProcessNumber pm.heartbeatPool ↔ (pm.heartbeatPool i).isSome :=
    ⟨fun hi ↦ (IndexFilter.mem_filter_range.1 hi).2,
      fun hi ↦ IndexFilter.mem_filter_range.2 ⟨h.lt_of_isSome hi, hi⟩⟩
  by_cases hi : (pm.heartbeatPool i).isSome <;> simp [hi, hused]

end Removed

/-! ## Every run -/

theorem inv_step (h : Inv maxProcessNumber pm) (timeout : ℕ) (request : Request Name) :
    Inv maxProcessNumber (step maxProcessNumber timeout pm request).1 := by
  cases request with
  | registerProcess name pid isMonitored compatible =>
    exact h.registerProcess name pid isMonitored compatible
  | unregisterProcess name => exact h.searchForProcessAndRemoveIt name
  | monitorProcesses elapsed => exact (monitorProcesses_removed h timeout elapsed).1

/-- **The invariant holds after every sequence of calls.** -/
theorem inv_run (timeout : ℕ) (requests : List (Request Name)) :
    Inv maxProcessNumber ((machine maxProcessNumber timeout).run new requests).1 :=
  Machine.Invariant.run (M := machine maxProcessNumber timeout) (P := Inv maxProcessNumber)
    (fun _ request h _ ↦ inv_step h timeout request) requests
    (inv_new maxProcessNumber) ((machine maxProcessNumber timeout).admits_true _ requests)

theorem processManager_keeps_processes_and_heartbeats (timeout : ℕ)
    (requests : List (Request Name)) :
    let pm := ((machine maxProcessNumber timeout).run new requests).1
    Inv maxProcessNumber pm ∧
      (∀ i, (pm.heartbeatPool i).isSome →
        ∃! p, p ∈ pm.processList ∧ p.heartbeatPoolIndex = i) ∧
      ((Container.Positions.emplace maxProcessNumber pm.heartbeatPool ()).2 < maxProcessNumber ∨
        maxProcessNumber ≤ pm.processList.length) ∧
      (∀ name pid isMonitored compatible,
        (registerProcess maxProcessNumber pm name pid isMonitored compatible).2 =
          (compatible &&
            decide ((pm.processList.filter (·.name != name)).length < maxProcessNumber))) ∧
      ∀ elapsed, Removed (fun i ↦ (pm.heartbeatPool i).isSome && decide (timeout < elapsed i)) pm
        (monitorProcesses maxProcessNumber timeout elapsed pm) := by
  intro pm
  have h : Inv maxProcessNumber pm := inv_run timeout requests
  refine ⟨h, fun i hi ↦ h.existsUnique_owner hi, ?_, registerProcess_snd h,
    fun elapsed ↦ (monitorProcesses_removed h timeout elapsed).2⟩
  -- past the size check `emplace` finds a position
  by_cases hlen : pm.processList.length < maxProcessNumber
  · exact .inl (emplace_lt h hlen)
  · exact .inr (Nat.le_of_not_lt hlen)

/-- **A refused registration still removes its namesake.** `registerProcess` removes the process
registered under the name before `addProcess` checks the version: when the version is
incompatible, it answers `false` having erased the old process, freed its heartbeat and deleted
its ports, and no process of the name is left. -/
theorem registerProcess_incompatible_removes_namesake (h : Inv maxProcessNumber pm) {name : Name}
    {process : Process Name} (hfind : findProcess pm name = some process) (pid : ℕ)
    (isMonitored : Bool) :
    registerProcess maxProcessNumber pm name pid isMonitored false =
      (⟨pm.processList.filter (·.name != name),
        update pm.heartbeatPool process.heartbeatPoolIndex none, pm.deletedPorts ++ [name]⟩,
        false) := by
  rw [registerProcess_eq_addProcess, searchForProcessAndRemoveIt, removeFirst_name h hfind]
  rfl

/-- The process `7`, registered as monitored, and registered again with an incompatible version. -/
theorem registerProcess_incompatible_removes_namesake_of_seven :
    let pm := ((machine 4 10).run (new : ProcessManager ℕ) [.registerProcess 7 100 true true]).1
    registerProcess 4 pm 7 101 true false = (⟨[], update pm.heartbeatPool 0 none, [7]⟩, false) := by
  intro pm
  have hfind : findProcess pm 7 = some ⟨7, 100, 0⟩ := by decide
  exact registerProcess_incompatible_removes_namesake (inv_run 10 _) hfind 101 true

end ProcessManager

end Iox.Roudi
