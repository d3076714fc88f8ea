import HypervisorFirmware.Alloc.RuntimeAttribute
import HypervisorFirmware.Efi.InstallationHistory
import HypervisorFirmware.Efi.UniqueProtocols
import HypervisorFirmware.Efi.PeBounds
import HypervisorFirmware.Alloc.AllocateThenFree
import HypervisorFirmware.Efi.VariableServices
import HypervisorFirmware.Efi.ReadErrors
import HypervisorFirmware.Fat.OwnNames
import HypervisorFirmware.Fat.TableEntries
import HypervisorFirmware.Fat.Geometry
import HypervisorFirmware.Efi.VariadicInstall
import HypervisorFirmware.EfiStr.Encoding
import HypervisorFirmware.Efi.DirectoryRead
import HypervisorFirmware.Efi.FileOpen
import HypervisorFirmware.Efi.PartitionCapacity
import HypervisorFirmware.Efi.ReadBlocks
import HypervisorFirmware.Pci.CapabilityWalk
import HypervisorFirmware.Pi.FirstImage
import HypervisorFirmware.Alloc.MergedMemory
import HypervisorFirmware.Efi.ConOut
import HypervisorFirmware.Pi.SearchBounds
import HypervisorFirmware.Pe.Loader
import HypervisorFirmware.Block.StaleBuffers
import HypervisorFirmware.Efi.FailedLoad
import HypervisorFirmware.Init.HobProtection
import HypervisorFirmware.BzImage.CommandLine
import HypervisorFirmware.Alloc.MapQuery
