import VmEngine.Lib.System
import VmEngine.Lib.Timer
import VmEngine.Core.Messages
import VmEngine.Core.RequestGroup
import VmEngine.Core.GroupFetch
import VmEngine.Core.Process
import VmEngine.Core.ProcessStep
import VmEngine.Core.ProcessToken
import VmEngine.Core.ProcessTx
import VmEngine.Core.ProcessManager
import VmEngine.Core.GroupTurn
import VmEngine.Core.ManagerAnswers
import VmEngine.Core.Wakeup
import VmEngine.Core.ManagerView
import VmEngine.Core.Engine
import VmEngine.Core.EngineStep
import VmEngine.Lib.Joined
import VmEngine.Core.EngineNames
import VmEngine.Core.EngineFreed
import VmEngine.Core.ProcessListen
import VmEngine.Core.EngineExit
import VmEngine.Core.EngineLaunch
import VmEngine.Core.EngineUsers
import VmEngine.Core.EngineStreams
import VmEngine.Core.GroupQueues
import VmEngine.Core.GroupStranded
import VmEngine.Lib.Lru
import VmEngine.Core.ContractManager
import VmEngine.Core.ContractFiles
import VmEngine.Runtime.RequestPool
import VmEngine.Core.Fleet
import VmEngine.Core.GroupRequests
import VmEngine.Core.FleetVersion
import VmEngine.Lib.Places
import VmEngine.Core.FleetFetch
import VmEngine.Lib.NestedMap
import VmEngine.Core.ManagerMaps
import VmEngine.Core.ManagerRoom
import VmEngine.Core.EngineRoom
import VmEngine.Core.EngineAgree
import VmEngine.Runtime.Gas
import VmEngine.Runtime.Handlers
import VmEngine.Runtime.Invoke
import VmEngine.Core.SandboxService
import VmEngine.Runtime.HandlerReturns
import VmEngine.Runtime.HandlerEffect
import VmEngine.Runtime.CallStack
import VmEngine.Runtime.HandlerGas
import VmEngine.Runtime.InvokeGas
import VmEngine.Lib.WriteLoop
import VmEngine.Runtime.MergeOrder
import VmEngine.Utils.DurationTree
import VmEngine.Utils.DurationTotals
import VmEngine.Core.GroupFates
import VmEngine.Core.ManagerReport
import VmEngine.Core.ProcessChange
import VmEngine.Core.EngineIdentity
import VmEngine.Rpc.AliveClients
import VmEngine.Core.ProcessErrors
import VmEngine.Core.ProcessTimer
import VmEngine.Core.GroupCalls
import VmEngine.Core.Locks
import VmEngine.Core.LockCycle
import VmEngine.Core.CleanTimer
import VmEngine.Utils.SysCallPool
import VmEngine.Runtime.OldGas
import VmEngine.Runtime.StateKeys
import VmEngine.Lib.PrefixRange
import VmEngine.Runtime.PrefixIterator
import VmEngine.Runtime.ByteCode
import VmEngine.Runtime.HonestCodes
import VmEngine.Utils.FixedFifo
import VmEngine.Utils.FifoWakeups
import VmEngine.Core.FleetChains
import VmEngine.Core.FleetFates
import VmEngine.Rpc.ChainNode
import VmEngine.Rpc.ChainNodeBlocked
import VmEngine.Utils.LruCache
import VmEngine.Lib.Edges
import VmEngine.Runtime.CallReports
import VmEngine.Runtime.Replicas
import VmEngine.Runtime.WriteOrigin
