import ReflexOS.Runs
import ReflexOS.WriteBack
import ReflexOS.Types
import ReflexOS.VmTernary
import ReflexOS.VmMmu
import ReflexOS.VmState
import ReflexOS.VmCache
import ReflexOS.VmInterpreter
import ReflexOS.VmCacheTransparency
import ReflexOS.VmCacheRefusal
import ReflexOS.VmCacheHome
import ReflexOS.VmLoader
import ReflexOS.VmReload
import ReflexOS.VmReloadIsolation
import ReflexOS.VmTaskStart
import ReflexOS.VmTaskRuntime
import ReflexOS.VmFaults
import ReflexOS.VmRegisters
import ReflexOS.VmMmuRegions
import ReflexOS.Crc32
import ReflexOS.LinearProbing
import ReflexOS.LittleEndian
import ReflexOS.Fallible
import ReflexOS.TasmAssembler
import ReflexOS.TasmRoundTrip
import ReflexOS.TasmSpec
import ReflexOS.GooseTypes
import ReflexOS.GooseLattice
import ReflexOS.GooseLatticeMap
import ReflexOS.GooseRegistry
import ReflexOS.GooseFabric
import ReflexOS.GooseAliases
import ReflexOS.GooseAllocation
import ReflexOS.GooseRegistryTable
import ReflexOS.GooseIdentity
import ReflexOS.GoosePulse
import ReflexOS.GooseLearning
import ReflexOS.GooseAura
import ReflexOS.GooseMesh
import ReflexOS.GooseSyncRecv
import ReflexOS.GooseTables
import ReflexOS.GooseBinding
import ReflexOS.GooseLoom
import ReflexOS.GooseAuditors
import ReflexOS.GooseMmioSync
import ReflexOS.GooseMirror
import ReflexOS.GooseAtmosphere
import ReflexOS.GoosePhantoms
import ReflexOS.Radio802154
import ReflexOS.Radio802154Transmit
import ReflexOS.GooseDiscovery
import ReflexOS.GooseEmit
import ReflexOS.GooseEviction
import ReflexOS.GooseEvictionRing
import ReflexOS.GooseEvictionRuns
import ReflexOS.GoosePosture
import ReflexOS.GooseReplay
import ReflexOS.GooseMetabolic
import ReflexOS.GooseSnapshot
import ReflexOS.GooseSnapshotSave
import ReflexOS.GooseTrits
import ReflexOS.GooseNode
import ReflexOS.GooseLoomReads
import ReflexOS.GooseLoomRejects
import ReflexOS.PythonText
import ReflexOS.LoomScript
import ReflexOS.LoomScriptRoundTrip
import ReflexOS.GooseFragmentMemory
import ReflexOS.GooseAutonomy
import ReflexOS.KernelQueue
import ReflexOS.KernelWait
import ReflexOS.RingBuffer
import ReflexOS.RoundRobin
import ReflexOS.KernelQueueBytes
import ReflexOS.HalConsole
import ReflexOS.NorFlash
import ReflexOS.KvFlash
import ReflexOS.KvEntries
import ReflexOS.KvStore
import ReflexOS.KvCrash
import ReflexOS.KvMap
import ReflexOS.GoosePeers
import ReflexOS.GoosePhantomRuns
import ReflexOS.GoosePhantomNames
import ReflexOS.GooseStaleness
import ReflexOS.KvResume
import ReflexOS.StorageConfig
import ReflexOS.StorageBoots
import ReflexOS.ByteMemory
import ReflexOS.BlockList
import ReflexOS.KernelHeap
import ReflexOS.KernelHeapChain
import ReflexOS.KernelHeapAlloc
import ReflexOS.KernelHeapFree
import ReflexOS.KernelHeapRealloc
import ReflexOS.KernelHeapCheck
import ReflexOS.KernelHeapAligned
import ReflexOS.KernelHeapRuns
import ReflexOS.Threads
import ReflexOS.HeapShim
import ReflexOS.HeapShimRuns
import ReflexOS.HeapShimSound
import ReflexOS.HeapShimPrimitives
import ReflexOS.HeapShimContract
import ReflexOS.HeapShimCalls
import ReflexOS.HeapShimOwnership
import ReflexOS.PageTable
import ReflexOS.BootImage
import ReflexOS.BootMapping
import ReflexOS.BootSafety
import ReflexOS.ShellPolicy
import ReflexOS.ShellDispatch
import ReflexOS.ShellObserver
import ReflexOS.StringTokens
import ReflexOS.ShellLineEditor
import ReflexOS.ShellLines
import ReflexOS.GooseBreaker
import ReflexOS.GooseMeshWindow
import ReflexOS.GooseHebbian
import ReflexOS.GooseRebalance
import ReflexOS.GooseRhythm
import ReflexOS.Separated
import ReflexOS.GooseDomains
import ReflexOS.SchedTasks
import ReflexOS.SchedSelect
import ReflexOS.Ledger
import ReflexOS.SchedMachine
import ReflexOS.SchedEffects
import ReflexOS.SchedSlots
import ReflexOS.SchedDeadlines
import ReflexOS.BalancedTernary
import ReflexOS.VmTernaryWords
import ReflexOS.VmTernaryInt32
import ReflexOS.VmLoadBinary
import ReflexOS.GooseSnapshotLoad
import ReflexOS.FlashSpi1
import ReflexOS.FlashTransfers
import ReflexOS.WordBits
import ReflexOS.HalInterrupts
import ReflexOS.HalInterruptLines
import ReflexOS.GooseCoordinates
import ReflexOS.BlockStream
import ReflexOS.SecureHash
import ReflexOS.ReflexCrypto
import ReflexOS.ReflexCryptoHmac
import ReflexOS.ServiceWatchdog
import ReflexOS.ServiceBackoff
import ReflexOS.VmIntegers
import ReflexOS.VmRepresents
import ReflexOS.VmRefinement
import ReflexOS.HexText
import ReflexOS.ShellUpload
import ReflexOS.Mailboxes
import ReflexOS.CoreEventBus
import ReflexOS.CoreFabric
import ReflexOS.VmMessages
import ReflexOS.BinarySearch
import ReflexOS.GooseAtlas
import ReflexOS.GooseScraper
import ReflexOS.Utf8Replace
import ReflexOS.ShellExchange
import ReflexOS.BootEntry
import ReflexOS.BootLoop
import ReflexOS.DecimalText
import ReflexOS.GooseTelemetry
import ReflexOS.LineStream
import ReflexOS.LoomViewer
import ReflexOS.LoomViewerStream
import ReflexOS.GooseExplorer
import ReflexOS.GooseKernelPolicy
import ReflexOS.SchedPriorities
import ReflexOS.GoosePolicyScheduling
