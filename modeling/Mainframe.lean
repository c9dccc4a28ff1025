import Mainframe.FloatingPoint.Arithmetic
import Mainframe.Machine.Basic
import Mainframe.Machine.SettingsText
import Mainframe.Memory.Cyclic
import Mainframe.Memory.Holding
import Mainframe.Processor.Summary
import Mainframe.Proofs.Conduct
import Mainframe.Proofs.LawfulBus
import Mainframe.Translation.Install
import Mainframe.Proofs.Access
import Mainframe.Proofs.Completion
import Mainframe.Proofs.Transfers
import Mainframe.Proofs.Instructions
import Mainframe.Proofs.Dispatch
import Mainframe.Proofs.PreciseFaults
import Mainframe.Proofs.MemoryProtection
import Mainframe.Proofs.PrivilegeConfinement
import Mainframe.Proofs.Rings
import Mainframe.Proofs.Traps
import Mainframe.Proofs.Coverage
import Mainframe.Proofs.Exchanges
import Mainframe.Proofs.NativeSteps
import Mainframe.Proofs.Delivery
import Mainframe.Proofs.Cells
import Mainframe.Proofs.VirtualWords
import Mainframe.Proofs.AreaAccess
import Mainframe.Proofs.SaveAreas
import Mainframe.Proofs.RoundTrips
import Mainframe.Proofs.TrapTransparency
import Mainframe.Proofs.LegacyViews
import Mainframe.Proofs.PackageLayout
import Mainframe.Proofs.PackageRoundTrips
import Mainframe.Proofs.PageSearch
import Mainframe.Proofs.TranslationRules
import Mainframe.Proofs.PageTable
import Mainframe.Proofs.PageMap
import Mainframe.Proofs.PageInstallation
import Mainframe.Proofs.ExchangeOutcomes
import Mainframe.Proofs.TrapDelivery
import Mainframe.Proofs.TrapFailure
import Mainframe.Proofs.LegacyPlacement
import Mainframe.Proofs.PointerRings
import Mainframe.Proofs.IndependentTranslations
import Mainframe.Proofs.BusIndependence
import Mainframe.Proofs.Isolation
import Mainframe.Proofs.Observation
import Mainframe.Proofs.LegacyRoundTrips
import Mainframe.Proofs.BytewiseMemory
import Mainframe.Proofs.PageBytes
import Mainframe.Proofs.BytewiseAccess
import Mainframe.Proofs.LockedUpdates
import Mainframe.Proofs.MemoryDifferences
import Mainframe.Proofs.BlockAccess
import Mainframe.Proofs.Gathering
import Mainframe.Proofs.Refetching
import Mainframe.Proofs.BlockRetries
import Mainframe.Proofs.PageReinstallation
import Mainframe.Proofs.PageContiguity
import Mainframe.Proofs.StackBounds
import Mainframe.Proofs.FloatingValues
import Mainframe.Proofs.FloatingSums
import Mainframe.Proofs.FloatingProducts
import Mainframe.Proofs.FloatingIntegers
import Mainframe.Proofs.Computations
import Mainframe.Proofs.FloatingOrder
import Mainframe.Proofs.IntegerArithmetic
import Mainframe.Proofs.BlockCopies
import Mainframe.Proofs.BlockComparisons
import Mainframe.Proofs.MultipleRegisters
import Mainframe.Proofs.Editing
import Mainframe.Proofs.Signals
import Mainframe.Proofs.IntervalTimers
import Mainframe.Proofs.HeldMemories
import Mainframe.Proofs.VirtualBits
import Mainframe.Proofs.RepeatedTranslations
import Mainframe.Proofs.BitOperations
import Mainframe.Proofs.BitArrays
import Mainframe.Proofs.BitFields
import Mainframe.Proofs.TableEntries
import Mainframe.Proofs.PackageRoom
import Mainframe.Proofs.StateRegisters
import Mainframe.Proofs.Shifts
