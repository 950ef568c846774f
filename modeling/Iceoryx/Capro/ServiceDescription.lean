import Iceoryx.Utility.Serialization

/-!
# Service descriptions on the wire

`ServiceDescription::operator Serialization()` (`service_description.cpp`) creates a
`Serialization` of the three `IdString_t` of a description, the four words of its class hash, and
its scope and interface as their underlying `uint16_t`. `ServiceDescription::deserialize` extracts
them in the same order and refuses a scope from `Scope::INVALID` on and an interface from
`Interfaces::INTERFACE_END` on.

## What is proved

* **A description comes back unchanged** when its strings hold no zero byte and its scope and
  interface are not the two end markers (`deserialize_toSerialization`).
* It does not otherwise: the stream writes an `IdString_t` up to its first zero byte, so a string
  holding one comes back cut; and `extract` accepts strings that `create` never writes, with a
  length written with a leading zero, or a length for which `pos + length + 1U` wraps so that the
  remainder reads the length's last digit again (`serialization_is_not_exact`).
-/

namespace Iox

namespace Capro

open CString

/-- `IOX_MAX_ID_STRING_LENGTH`, at its deployment default. -/
def maxIdStringLength : ℕ := 100

/-- `IdString_t` -/
abbrev IdString := IoxString maxIdStringLength

/-- `Scope`, with the underlying values `0`, `1`, `2`. -/
inductive Scope
  | worldwide
  | «local»
  | invalid
  deriving DecidableEq, Repr

/-- `Interfaces`, with the underlying values `0` to `9`. -/
inductive Interfaces
  | internal
  | esoc
  | someip
  | amqp
  | mqtt
  | dds
  | signal
  | mta
  | ros1
  | interfaceEnd
  deriving DecidableEq, Repr

namespace Scope

/-- `static_cast<std::underlying_type<Scope>::type>(scope)` -/
def toUnderlying : Scope → UInt16
  | worldwide => 0
  | «local» => 1
  | invalid => 2

/-- `static_cast<Scope>(scope)`, which `deserialize` applies below `Scope::INVALID` only. -/
def ofUnderlying (scope : UInt16) : Scope :=
  if scope = 0 then worldwide else if scope = 1 then «local» else invalid

theorem ofUnderlying_toUnderlying (scope : Scope) : ofUnderlying scope.toUnderlying = scope := by
  cases scope <;> rfl

theorem toUnderlying_lt_invalid {scope : Scope} (h : scope ≠ invalid) :
    scope.toUnderlying < invalid.toUnderlying := by
  cases scope
  · decide
  · decide
  · exact absurd rfl h

end Scope

namespace Interfaces

/-- `static_cast<std::underlying_type<Interfaces>::type>(commInterface)` -/
def toUnderlying : Interfaces → UInt16
  | internal => 0
  | esoc => 1
  | someip => 2
  | amqp => 3
  | mqtt => 4
  | dds => 5
  | signal => 6
  | mta => 7
  | ros1 => 8
  | interfaceEnd => 9

/-- `static_cast<Interfaces>(commInterface)`, which `deserialize` applies below
`Interfaces::INTERFACE_END` only. -/
def ofUnderlying (commInterface : UInt16) : Interfaces :=
  match commInterface.toNat with
  | 0 => internal
  | 1 => esoc
  | 2 => someip
  | 3 => amqp
  | 4 => mqtt
  | 5 => dds
  | 6 => signal
  | 7 => mta
  | 8 => ros1
  | _ => interfaceEnd

theorem ofUnderlying_toUnderlying (commInterface : Interfaces) :
    ofUnderlying commInterface.toUnderlying = commInterface := by
  cases commInterface <;> rfl

theorem toUnderlying_lt_interfaceEnd {commInterface : Interfaces}
    (h : commInterface ≠ interfaceEnd) :
    commInterface.toUnderlying < interfaceEnd.toUnderlying := by
  cases commInterface
  case interfaceEnd => exact absurd rfl h
  all_goals decide

end Interfaces

/-- `ServiceDescription`: its strings, `ClassHash::data`, scope and interface. -/
structure ServiceDescription where
  serviceString : IdString
  instanceString : IdString
  eventString : IdString
  classHash : Vector UInt32 4
  scope : Scope
  interfaceSource : Interfaces
  deriving DecidableEq

namespace ServiceDescription

/-- The three identifiers of a description, which is all that `operator==` compares. -/
def ids (sd : ServiceDescription) : IdString × IdString × IdString :=
  (sd.serviceString, sd.instanceString, sd.eventString)

/-- `ServiceDescription::operator==`: the service, instance and event strings, each compared with
`iox::string::operator==`, which compares the bytes (`IoxString.compare_eq`). -/
def beq (sd rhs : ServiceDescription) : Bool :=
  sd.serviceString == rhs.serviceString && sd.instanceString == rhs.instanceString &&
    sd.eventString == rhs.eventString

theorem beq_iff {sd rhs : ServiceDescription} : sd.beq rhs = true ↔ sd.ids = rhs.ids := by
  simp [beq, ids, and_assoc]

/-- The arguments of `Serialization::create` in `operator Serialization()`. -/
def serializationArgs (sd : ServiceDescription) : List (Arg maxIdStringLength) :=
  [.ioxString sd.serviceString, .ioxString sd.instanceString, .ioxString sd.eventString,
    .unsignedInt sd.classHash[0], .unsignedInt sd.classHash[1], .unsignedInt sd.classHash[2],
    .unsignedInt sd.classHash[3], .unsignedShort sd.scope.toUnderlying,
    .unsignedShort sd.interfaceSource.toUnderlying]

/-- `ServiceDescription::operator Serialization()` -/
def toSerialization (sd : ServiceDescription) : Serialization :=
  Serialization.create Arg.getString sd.serializationArgs

/-- The types of the arguments of `extract` in `deserialize`. -/
def deserializationArgTypes : List ArgType :=
  [.ioxString, .ioxString, .ioxString, .unsignedInt, .unsignedInt, .unsignedInt, .unsignedInt,
    .unsignedShort, .unsignedShort]

/-- `ServiceDescription::deserialize(serialized)` -/
def deserialize (serialized : Serialization) : Except SerializationError ServiceDescription :=
  match serialized.extract (Arg.fromString maxIdStringLength) deserializationArgTypes with
  | some [.ioxString serviceString, .ioxString instanceString, .ioxString eventString,
      .unsignedInt hash0, .unsignedInt hash1, .unsignedInt hash2, .unsignedInt hash3,
      .unsignedShort scope, .unsignedShort commInterface] =>
    if scope ≥ Scope.invalid.toUnderlying ∨
        commInterface ≥ Interfaces.interfaceEnd.toUnderlying then
      .error .deserializationFailed
    else
      .ok ⟨serviceString, instanceString, eventString, ⟨#[hash0, hash1, hash2, hash3], rfl⟩,
        Scope.ofUnderlying scope, Interfaces.ofUnderlying commInterface⟩
  -- `extract` returned `false`
  | _ => .error .deserializationFailed

/-! ### Reading back a description -/

/-- The class hash read back word by word. -/
theorem classHash_words (hash : Vector UInt32 4) :
    (⟨#[hash[0], hash[1], hash[2], hash[3]], rfl⟩ : Vector UInt32 4) = hash := by
  apply Vector.ext
  intro i hi
  match i, hi with
  | 0, _ | 1, _ | 2, _ | 3, _ => rfl

/-- A serialized description fits in a `std::string`: nine entries, each of at most a hundred
bytes after a length of at most three digits and the separator. -/
theorem length_toSerialization_lt (sd : ServiceDescription) :
    sd.toSerialization.value.length < 2 ^ 64 := by
  have hargs : ∀ a ∈ sd.serializationArgs, a.getString.length ≤ 100 :=
    fun a _ ↦ Nat.le_trans (Arg.length_getString_le a) (by decide)
  calc sd.toSerialization.value.length ≤ sd.serializationArgs.length * (3 + 1 + 100) :=
        Serialization.length_serializer_le Arg.getString (by decide) (by decide) hargs
    _ < 2 ^ 64 := by simp [serializationArgs]

/-- **A description comes back unchanged** when its strings hold no zero byte and its scope and
interface are not the end markers of their enumerations. -/
theorem deserialize_toSerialization {sd : ServiceDescription}
    (hservice : zero ∉ sd.serviceString.chars) (hinstance : zero ∉ sd.instanceString.chars)
    (hevent : zero ∉ sd.eventString.chars) (hscope : sd.scope ≠ .invalid)
    (hinterface : sd.interfaceSource ≠ .interfaceEnd) :
    deserialize sd.toSerialization = .ok sd := by
  have hzero : ∀ a ∈ sd.serializationArgs, a.HasNoZeroByte := by
    simp [serializationArgs, Arg.HasNoZeroByte, hservice, hinstance, hevent]
  have hextract : sd.toSerialization.extract (Arg.fromString maxIdStringLength)
      deserializationArgTypes = some sd.serializationArgs :=
    Arg.extract_create_args hzero (length_toSerialization_lt sd)
  have hchecks : ¬(sd.scope.toUnderlying ≥ Scope.invalid.toUnderlying ∨
      sd.interfaceSource.toUnderlying ≥ Interfaces.interfaceEnd.toUnderlying) := by
    simp only [not_or, ge_iff_le, UInt16.not_le]
    exact ⟨Scope.toUnderlying_lt_invalid hscope, Interfaces.toUnderlying_lt_interfaceEnd hinterface⟩
  rw [deserialize, hextract]
  simp only [serializationArgs]
  rw [if_neg hchecks, Scope.ofUnderlying_toUnderlying, Interfaces.ofUnderlying_toUnderlying,
    classHash_words]

/-- The description `Radar`/`FrontLeft`/`Objects`, worldwide and internal. -/
theorem deserialize_toSerialization_of_radar :
    let radar : ServiceDescription :=
      ⟨IoxString.truncateWithCount (some "Radar".toList) 5,
        IoxString.truncateWithCount (some "FrontLeft".toList) 9,
        IoxString.truncateWithCount (some "Objects".toList) 7, ⟨#[0, 0, 0, 0], rfl⟩, .worldwide,
        .internal⟩
    deserialize radar.toSerialization = .ok radar :=
  deserialize_toSerialization (by decide) (by decide) (by decide) (by decide) (by decide)

/-- **The codec is not exact.** A zero byte in a string cuts it, since the stream writes
`c_str()`. `extract` reads a length written with a leading zero, which `create` never writes. And
it reads the length `2 ^ 64 - 2` before four bytes: `pos + length + 1U` wraps to `19`, the check
passes, the entry is the four bytes, and the remainder restarts at the length's last digit `4`,
which it reads as the length of a second entry. -/
theorem serialization_is_not_exact :
    let empty : IdString := IoxString.truncateWithCount none 0
    let cut : IdString := IoxString.truncateWithCount (some ['a', zero]) 2
    let sd : ServiceDescription := ⟨cut, empty, empty, ⟨#[0, 0, 0, 0], rfl⟩, .worldwide, .internal⟩
    let a : IdString := IoxString.truncateWithCount (some ['a']) 1
    let abcd : IdString := IoxString.truncateWithCount (some ['a', 'b', 'c', 'd']) 4
    let leadingZero : Serialization := ⟨['0', '1', ':', 'a']⟩
    let wrapped : Serialization := ⟨['1', '8', '4', '4', '6', '7', '4', '4', '0', '7', '3', '7',
      '0', '9', '5', '5', '1', '6', '1', '4', ':', 'a', 'b', 'c', 'd']⟩
    deserialize sd.toSerialization = .ok { sd with serviceString := a } ∧
      leadingZero.extract (Arg.fromString maxIdStringLength) [.ioxString] = some [.ioxString a] ∧
      Serialization.create Arg.getString [Arg.ioxString a] ≠ leadingZero ∧
      wrapped.extract (Arg.fromString maxIdStringLength) [.ioxString, .ioxString] =
        some [.ioxString abcd, .ioxString abcd] ∧
      Serialization.create Arg.getString [Arg.ioxString abcd, Arg.ioxString abcd] ≠ wrapped := by
  decide

end ServiceDescription

end Capro

end Iox
