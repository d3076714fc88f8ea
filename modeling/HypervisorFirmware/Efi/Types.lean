import Mathlib.Data.Nat.Notation

/-! # UEFI constants and enumerations

The part of the `r_efi` crate that the modelled code uses. -/

namespace HypervisorFirmware.Efi

inductive Status
  | success
  | unsupported
  | invalidParameter
  | bufferTooSmall
  | deviceError
  | outOfResources
  | notFound
  | securityViolation
  | endOfFile
  deriving DecidableEq, Repr

def Status.isError : Status → Bool
  | .success => false
  | _ => true

inductive AllocateType
  | allocateAnyPages
  | allocateMaxAddress
  | allocateAddress
  deriving DecidableEq, Repr

inductive MemoryType
  | reservedMemoryType
  | loaderCode
  | loaderData
  | bootServicesCode
  | bootServicesData
  | runtimeServicesCode
  | runtimeServicesData
  | conventionalMemory
  | unusableMemory
  | acpiReclaimMemory
  | acpiMemoryNvs
  | memoryMappedIo
  | memoryMappedIoPortSpace
  | palCode
  | persistentMemory
  deriving DecidableEq, Repr

namespace MemoryType

def toUInt32 : MemoryType → UInt32
  | .reservedMemoryType => 0
  | .loaderCode => 1
  | .loaderData => 2
  | .bootServicesCode => 3
  | .bootServicesData => 4
  | .runtimeServicesCode => 5
  | .runtimeServicesData => 6
  | .conventionalMemory => 7
  | .unusableMemory => 8
  | .acpiReclaimMemory => 9
  | .acpiMemoryNvs => 10
  | .memoryMappedIo => 11
  | .memoryMappedIoPortSpace => 12
  | .palCode => 13
  | .persistentMemory => 14

theorem toUInt32_injective : Function.Injective toUInt32 := by
  intro left right equal
  cases left <;> cases right <;> first | rfl | (exact absurd equal (by decide))

def ofUInt32? (value : UInt32) : Option MemoryType :=
  [reservedMemoryType, loaderCode, loaderData, bootServicesCode, bootServicesData,
    runtimeServicesCode, runtimeServicesData, conventionalMemory, unusableMemory,
    acpiReclaimMemory, acpiMemoryNvs, memoryMappedIo, memoryMappedIoPortSpace, palCode,
    persistentMemory].find? fun memoryType => memoryType.toUInt32 == value

def isRuntime : MemoryType → Bool
  | .runtimeServicesCode | .runtimeServicesData => true
  | _ => false

end MemoryType

def memoryWb : UInt64 := 0x8

def memoryRuntime : UInt64 := 0x8000000000000000

end HypervisorFirmware.Efi
