import ProjectDelta.HandOver
import ProjectDelta.OwnerThieves
import ProjectDelta.QueueLayout
import ProjectDelta.ThreadArena
import ProjectDelta.BumpRegions
import ProjectDelta.ArenaHistory
import ProjectDelta.ArenaCommit
import ProjectDelta.Engine
import ProjectDelta.Shutdown
import ProjectDelta.DependencyCounter
import ProjectDelta.WakeUp
import ProjectDelta.CyclicScan
import ProjectDelta.Barrier
import ProjectDelta.RecordLayout
import ProjectDelta.ThreadLayout
import ProjectDelta.MemoryBudget
import ProjectDelta.ArenaAdmission
import ProjectDelta.ArenaGrowth
import ProjectDelta.DrainedQueue
import ProjectDelta.SyncDrain
import ProjectDelta.RoundRobin
import ProjectDelta.DrainOrder
import ProjectDelta.WorkerStart
import ProjectDelta.Lifecycle
import ProjectDelta.ContextLifetime
import ProjectDelta.FreeRouting
import ProjectDelta.Blocks
import ProjectDelta.Platform
import ProjectDelta.CoreAffinity
import ProjectDelta.WorkerIndex
import ProjectDelta.Launcher
import ProjectDelta.Conservation
import ProjectDelta.EntryCounts
import ProjectDelta.MainTasks
import ProjectDelta.Progress
import ProjectDelta.Quiescence
import ProjectDelta.HotReload
import ProjectDelta.Traces
import ProjectDelta.Linearization
import ProjectDelta.EffectPoints
import ProjectDelta.Simulation
import ProjectDelta.EngineRefinement
import ProjectDelta.QueueCapacity
import ProjectDelta.ArenaIsolation
import ProjectDelta.ProcessorRecords
import ProjectDelta.Startup
import ProjectDelta.ContextOwners
