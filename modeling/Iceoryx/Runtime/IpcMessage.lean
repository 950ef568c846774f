import Iceoryx.Data.Terminated
import Mathlib.Algebra.Group.Nat.Defs

/-!
# `IpcMessage`: entries ended by commas

`IpcMessage` (`ipc_message.cpp`, `ipc_message.inl`) is the message format of the IPC channel
between RouDi and its clients. `m_msg` holds the entries, each followed by the separator `','`,
and `m_numberOfElements`, a `uint32_t` (`UInt32` here), counts them. `addEntry` refuses an entry
that holds the separator and marks the message invalid. The constructor from a string takes the
string as it is, valid when it is empty or ends with the separator, and counts its separators.
`getElementAtIndex(index)` scans with `find_first_of` from one separator to the next and returns
what lies before the separator it stops at.

## The model

An entry is a `std::string`, which `addEntry` writes through a `stringstream` unchanged. The loop
of `getElementAtIndex` keeps `startPos` and `endPos` in `m_msg`; `elementFrom` keeps instead the
remainder from `startPos` on, in which `endPos - startPos` is the position of the next separator,
and counts down the elements still to pass instead of counting up to `index`.

## What is proved

The message built from entries without separator is their `Terminated.terminated` list
(`foldl_addEntry`), read back entry by entry by `getElementAtIndex` (`elementFrom_terminated`),
and every string that is empty or ends with the separator is such a message, rebuilt from its
elements (`exists_terminated` of `Iceoryx.Data.Terminated`). The count is exact below `2 ^ 32`
entries (`ipcMessage_is_exact_codec`); at `2 ^ 32` entries `m_numberOfElements` wraps to `0`, both
when the entries are added and when the string is counted, and the rebuilt message is empty
(`ipcMessage_count_wraps`).
-/

namespace Iox.Runtime

open Terminated

/-- `IpcMessage::m_separator` -/
def separator : Char := ','

/-- `IpcMessage`: `m_msg`, `m_isValid` and `m_numberOfElements`. -/
structure IpcMessage where
  msg : List Char
  isValid : Bool
  numberOfElements : UInt32
  deriving DecidableEq, Repr

namespace IpcMessage

/-- The default constructor `IpcMessage()`: empty and valid. -/
def empty : IpcMessage := ⟨[], true, 0⟩

/-- `isValidEntry(entry)`: `entry.find(m_separator)` finds nothing. -/
def isValidEntry (entry : List Char) : Bool :=
  (entry.idxOf? separator).isNone

/-- `addEntry(entry)`, also `operator<<(entry)`. -/
def addEntry (m : IpcMessage) (entry : List Char) : IpcMessage :=
  if !isValidEntry entry then { m with isValid := false }
  else
    { m with
      msg := m.msg ++ (entry ++ [separator])
      numberOfElements := m.numberOfElements + 1 }

/-- The constructor `IpcMessage(const std::initializer_list<std::string>& msg)`. -/
def ofEntries (msg : List (List Char)) : IpcMessage :=
  msg.foldl addEntry empty

/-- `setMessage(msg)`, after `clearMessage()` has emptied the message and made it valid. -/
def setMessage (msg : List Char) : IpcMessage :=
  let m : IpcMessage := { empty with msg := msg }
  if !m.msg.isEmpty && m.msg.getLast? != some separator then { m with isValid := false }
  else { m with numberOfElements := UInt32.ofNat (m.msg.count separator) }

/-- The constructor `IpcMessage(const std::string& msg)`. -/
def ofString (msg : List Char) : IpcMessage :=
  setMessage msg

/-- `getMessage()` -/
def getMessage (m : IpcMessage) : List Char :=
  m.msg

/-- `getNumberOfElements()` -/
def getNumberOfElements (m : IpcMessage) : UInt32 :=
  m.numberOfElements

/-- The loop of `getElementAtIndex` from `startPos` on: `remainder` is the message from
`startPos`, and `skip` is `index - counter`, the elements still to pass. It stops with an empty
string when no separator is left. -/
def elementFrom : ℕ → List Char → List Char
  | skip, remainder =>
    match remainder.idxOf? separator with
    | none => []
    | some endPos =>
      match skip with
      | 0 => remainder.take endPos
      | skip + 1 => elementFrom skip (remainder.drop (endPos + 1))

/-- `getElementAtIndex(index)` -/
def getElementAtIndex (m : IpcMessage) (index : ℕ) : List Char :=
  elementFrom index m.msg

/-! ### Adding entries -/

theorem isValidEntry_iff {entry : List Char} :
    isValidEntry entry = true ↔ separator ∉ entry := by
  simp [isValidEntry, List.idxOf?_eq_none_iff]

/-- An entry holding the separator marks the message invalid and is not added. -/
theorem addEntry_of_mem (m : IpcMessage) {entry : List Char} (h : separator ∈ entry) :
    m.addEntry entry = { m with isValid := false } := by
  have hinvalid : isValidEntry entry = false := by
    rw [← Bool.not_eq_true, isValidEntry_iff, not_not]
    exact h
  simp [addEntry, hinvalid]

theorem addEntry_of_not_mem (m : IpcMessage) {entry : List Char} (h : separator ∉ entry) :
    m.addEntry entry = { m with
      msg := m.msg ++ (entry ++ [separator])
      numberOfElements := m.numberOfElements + 1 } := by
  simp [addEntry, isValidEntry_iff.2 h]

/-- **Adding entries without separator appends them, each with the separator**, and counts
them modulo `2 ^ 32`. By induction on the entries, from any message. -/
theorem foldl_addEntry : ∀ {entries : List (List Char)}, (∀ e ∈ entries, separator ∉ e) →
    ∀ m : IpcMessage, entries.foldl addEntry m =
      { m with
        msg := m.msg ++ terminated separator entries
        numberOfElements := m.numberOfElements + UInt32.ofNat entries.length }
  | [], _, m => by simp
  | e :: entries, h, m => by
    rw [List.foldl_cons, addEntry_of_not_mem m (h e List.mem_cons_self),
      foldl_addEntry (fun e' he' ↦ h e' (List.mem_cons_of_mem e he'))]
    simp only [terminated_cons, List.append_assoc, List.singleton_append, List.length_cons,
      UInt32.ofNat_add, UInt32.add_assoc, UInt32.add_comm 1]
    rfl

/-! ### Reading entries back -/

/-- The loop stops at the first separator when it has no element left to pass. -/
theorem elementFrom_zero_of_split {front : List Char} (h : separator ∉ front) (back : List Char) :
    elementFrom 0 (front ++ separator :: back) = front := by
  rw [elementFrom, idxOf?_append_cons h]
  exact List.take_left

/-- The loop passes an element by going on after its separator. -/
theorem elementFrom_succ_of_split {front : List Char} (h : separator ∉ front) (back : List Char)
    (skip : ℕ) : elementFrom (skip + 1) (front ++ separator :: back) = elementFrom skip back := by
  have hdrop : (front ++ separator :: back).drop (front.length + 1) = back := by
    rw [← List.singleton_append, ← List.append_assoc]
    exact List.drop_left' (by simp)
  rw [elementFrom, idxOf?_append_cons h]
  exact congrArg (elementFrom skip) hdrop

/-- **The loop reads the entries back**, one per separator. -/
theorem elementFrom_terminated : ∀ {entries : List (List Char)},
    (∀ e ∈ entries, separator ∉ e) → ∀ (i : ℕ) (hi : i < entries.length),
      elementFrom i (terminated separator entries) = entries[i]
  | e :: entries, h, 0, _ => by
    rw [terminated_cons, elementFrom_zero_of_split (h e List.mem_cons_self)]
    rfl
  | e :: entries, h, i + 1, hi => by
    rw [terminated_cons, elementFrom_succ_of_split (h e List.mem_cons_self),
      elementFrom_terminated (fun e' he' ↦ h e' (List.mem_cons_of_mem e he')) i
        (by simpa using hi)]
    rfl

/-- A terminated list is a valid message to the constructor from a string. -/
theorem ofString_terminated {entries : List (List Char)} (h : ∀ e ∈ entries, separator ∉ e) :
    ofString (terminated separator entries) =
      ⟨terminated separator entries, true, UInt32.ofNat entries.length⟩ := by
  have hcount : (terminated separator entries).count separator = entries.length :=
    count_terminated h
  unfold ofString setMessage
  rcases (getLast?_terminated : terminated separator entries = [] ∨ _) with hnil | hlast
  · rw [hnil] at hcount ⊢
    simp [empty, ← hcount]
  · simp [hlast, hcount, empty]

/-- **The elements of a message built from entries are the entries.** -/
theorem elements_ofString_terminated {entries : List (List Char)}
    (h : ∀ e ∈ entries, separator ∉ e) (hlen : entries.length < 2 ^ 32) :
    (List.range (ofString (terminated separator entries)).getNumberOfElements.toNat).map
      (ofString (terminated separator entries)).getElementAtIndex = entries := by
  have hcount : (UInt32.ofNat entries.length).toNat = entries.length := by
    rw [UInt32.toNat_ofNat', Nat.mod_eq_of_lt hlen]
  rw [ofString_terminated h]
  apply List.ext_getElem
    (by simp only [List.length_map, List.length_range, getNumberOfElements, hcount])
  intro i hi _
  simp only [List.getElem_map, List.getElem_range, getElementAtIndex]
  exact elementFrom_terminated h i
    (by simpa only [List.length_map, List.length_range, getNumberOfElements, hcount] using hi)

end IpcMessage

open IpcMessage

/-- **`IpcMessage` is an exact codec below `2 ^ 32` entries.** A message built from fewer than
`2 ^ 32` entries without separator is valid, counts them, and the message read from its string is
valid, counts them and gives each back at its index; an entry with the separator marks the
message invalid and leaves `m_msg` as it was; and a string that is empty or ends with the
separator, with fewer than `2 ^ 32` separators, is rebuilt from its elements. -/
theorem ipcMessage_is_exact_codec :
    (∀ entries : List (List Char), (∀ e ∈ entries, separator ∉ e) →
      entries.length < 2 ^ 32 →
      let m := ofEntries entries
      let m' := ofString m.getMessage
      m.isValid = true ∧ m.getNumberOfElements.toNat = entries.length ∧ m'.isValid = true ∧
        m'.getNumberOfElements.toNat = entries.length ∧
        ∀ (i : ℕ) (hi : i < entries.length), m'.getElementAtIndex i = entries[i]) ∧
    (∀ (m : IpcMessage) (entry : List Char), separator ∈ entry →
      (m.addEntry entry).isValid = false ∧ (m.addEntry entry).getMessage = m.getMessage) ∧
    ∀ s : List Char, (s = [] ∨ s.getLast? = some separator) → s.count separator < 2 ^ 32 →
      (ofEntries ((List.range (ofString s).getNumberOfElements.toNat).map
        (ofString s).getElementAtIndex)).getMessage = s := by
  refine ⟨fun entries h hlen ↦ ?_, fun m entry h ↦ ?_, fun s hs hcount ↦ ?_⟩
  · have hcount : (UInt32.ofNat entries.length).toNat = entries.length := by
      rw [UInt32.toNat_ofNat', Nat.mod_eq_of_lt hlen]
    have hm : ofEntries entries =
        ⟨terminated separator entries, true, UInt32.ofNat entries.length⟩ := by
      rw [ofEntries, foldl_addEntry h]
      simp [empty]
    dsimp only
    rw [hm, getMessage, ofString_terminated h, getNumberOfElements]
    refine ⟨rfl, hcount, rfl, hcount, fun i hi ↦ ?_⟩
    rw [getElementAtIndex]
    exact elementFrom_terminated h i hi
  · rw [addEntry_of_mem m h]
    exact ⟨rfl, rfl⟩
  · -- the string is the terminated list of its elements
    obtain ⟨entries, h, rfl⟩ := exists_terminated hs
    have hlen : entries.length < 2 ^ 32 := count_terminated h ▸ hcount
    rw [elements_ofString_terminated h hlen, ofEntries, foldl_addEntry h]
    rfl

/-- The codec on the entries `"a"` and `""`. -/
theorem ipcMessage_is_exact_codec_two_entries :
    (∀ e ∈ [['a'], []], separator ∉ e) ∧ [['a'], ([] : List Char)].length < 2 ^ 32 ∧
      (ofString (ofEntries [['a'], []]).getMessage).getElementAtIndex 0 = ['a'] :=
  ⟨by decide, by decide,
    (ipcMessage_is_exact_codec.1 [['a'], []] (by decide) (by decide)).2.2.2.2 0 (by decide)⟩

/-- **At `2 ^ 32` entries the count wraps.** Adding `2 ^ 32` empty entries gives a valid message
with `0` elements; the string of `2 ^ 32` separators is read as a valid message with `0` elements,
and rebuilding it from its elements gives the empty string. The lists are never unfolded: every
step rewrites with a lemma about `List.replicate`. -/
theorem ipcMessage_count_wraps :
    let entries := List.replicate (2 ^ 32) ([] : List Char)
    let s := List.replicate (2 ^ 32) separator
    (ofEntries entries).isValid = true ∧ (ofEntries entries).getNumberOfElements = 0 ∧
      (ofString s).isValid = true ∧ (ofString s).getNumberOfElements = 0 ∧
      (ofEntries ((List.range (ofString s).getNumberOfElements.toNat).map
        (ofString s).getElementAtIndex)).getMessage = [] := by
  have hsep : ∀ e ∈ List.replicate (2 ^ 32) ([] : List Char), separator ∉ e := by
    intro e he
    rw [List.eq_of_mem_replicate he]
    exact List.not_mem_nil
  have hwrap : UInt32.ofNat (2 ^ 32) = 0 := by decide
  have hentries : ofEntries (List.replicate (2 ^ 32) ([] : List Char)) =
      ⟨terminated separator (List.replicate (2 ^ 32) []), true, 0⟩ := by
    -- field by field: comparing the messages by unfolding would walk all 2 ^ 32 entries
    rw [ofEntries, foldl_addEntry hsep, List.length_replicate, hwrap, IpcMessage.mk.injEq]
    exact ⟨List.nil_append _, rfl, rfl⟩
  -- the string of separators is the terminated list of empty entries
  have hs : List.replicate (2 ^ 32) separator =
      terminated separator (List.replicate (2 ^ 32) []) := by
    rw [terminated, List.map_replicate, List.nil_append, List.flatten_replicate_singleton]
  have hstring : ofString (List.replicate (2 ^ 32) separator) =
      ⟨List.replicate (2 ^ 32) separator, true, 0⟩ := by
    rw [hs, ofString_terminated hsep, List.length_replicate, hwrap]
  dsimp only
  rw [hentries, hstring]
  exact ⟨rfl, rfl, rfl, rfl, rfl⟩

end Iox.Runtime
