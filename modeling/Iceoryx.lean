import Iceoryx.Machine.Run
import Iceoryx.Data.NextChain
import Iceoryx.Hoofs.MpmcLoFFLi
import Iceoryx.Data.BoundedQueue
import Iceoryx.Hoofs.SpscSofi
import Iceoryx.Hoofs.CyclicIndex
import Iceoryx.Hoofs.MpmcIndexQueue
import Iceoryx.Hoofs.MpmcLockFreeQueue
import Iceoryx.Hoofs.MpmcResizeableLockFreeQueue
import Iceoryx.Hoofs.SpscSofiInterleaving
import Iceoryx.Posix.NamedPipe
import Iceoryx.Data.Holdings
import Iceoryx.Mepoo.MemoryManager
import Iceoryx.Popo.UsedChunkList
import Iceoryx.Popo.ChunkQueue
import Iceoryx.Popo.World
import Iceoryx.Popo.ChunkDistributor
import Iceoryx.Popo.ChunkSender
import Iceoryx.Popo.ChunkReceiver
import Iceoryx.Popo.BuildingBlocks
import Iceoryx.Popo.ConditionVariable
import Iceoryx.Memory.Align
import Iceoryx.Memory.RelativePointer
import Iceoryx.Memory.BumpAllocator
import Iceoryx.Mepoo.ChunkHeader
import Iceoryx.Mepoo.Configure
import Iceoryx.Container.Vector
import Iceoryx.Container.VectorRefinement
import Iceoryx.Vocabulary.PathVerifier
import Iceoryx.Vocabulary.SemanticString
import Iceoryx.Data.IndexFilter
import Iceoryx.Container.FixedPositionContainer
import Iceoryx.Container.FixedPositionContainerRefinement
import Iceoryx.Data.LinkCycle
import Iceoryx.Container.List
import Iceoryx.Container.ListRefinement
import Iceoryx.Vocabulary.PathGrammar
import Iceoryx.Data.MixedRadix
import Iceoryx.Time.Duration
import Iceoryx.Data.CString
import Iceoryx.Vocabulary.String
import Iceoryx.Data.Decimal
import Iceoryx.Utility.Serialization
import Iceoryx.Capro.ServiceDescription
import Iceoryx.Roudi.ServiceRegistry
import Iceoryx.Roudi.MemoryProvider
import Iceoryx.Cli.Option
import Iceoryx.Cli.CommandLineParser
import Iceoryx.Data.Terminated
import Iceoryx.Runtime.IpcMessage
import Iceoryx.Data.UniqueMatch
import Iceoryx.Roudi.ProcessManager
import Iceoryx.Data.SortedMerge
import Iceoryx.Popo.WaitSet
import Iceoryx.Machine.Threads
import Iceoryx.Popo.Listener
import Iceoryx.Machine.Visit
import Iceoryx.Popo.Ports
import Iceoryx.Roudi.PortManager
import Iceoryx.Roudi.ManyToManyDiscovery
