import AccelSimLite.Lib.Acyclic
import AccelSimLite.Lib.Admission
import AccelSimLite.Lib.CondVar
import AccelSimLite.Lib.Counters
import AccelSimLite.Lib.Fallible
import AccelSimLite.Lib.Getline
import AccelSimLite.Lib.Interleaving
import AccelSimLite.Lib.RingBuffer
import AccelSimLite.Lib.WhileLoop
import AccelSimLite.Simulator.Defs
import AccelSimLite.Simulator.Passes
import AccelSimLite.Simulator.Runs
import AccelSimLite.Simulator.Placement
import AccelSimLite.Simulator.Lifecycle
import AccelSimLite.Simulator.Conservation
import AccelSimLite.Simulator.Timing
import AccelSimLite.Simulator.History
import AccelSimLite.Simulator.Dependencies
import AccelSimLite.Simulator.Resources
import AccelSimLite.Simulator.FrontEnd
import AccelSimLite.Simulator.StallReasons
import AccelSimLite.Simulator.Latency
import AccelSimLite.Simulator.Progress
import AccelSimLite.Simulator.Termination
import AccelSimLite.Simulator.FileOrder
import AccelSimLite.Simulator.Comparison
import AccelSimLite.Simulator.Monotonicity
import AccelSimLite.Simulator.Abstraction
import AccelSimLite.Simulator.Anomalies
import AccelSimLite.PerformanceEngine.Defs
import AccelSimLite.PerformanceEngine.WorkItems
import AccelSimLite.PerformanceEngine.AccessPatterns
import AccelSimLite.PerformanceEngine.Partition
import AccelSimLite.PerformanceEngine.StridedWalk
import AccelSimLite.PerformanceEngine.ExactlyOnce
import AccelSimLite.PerformanceEngine.Shutdown
import AccelSimLite.PerformanceEngine.Deadlock
import AccelSimLite.PthreadQueue.Defs
import AccelSimLite.PthreadQueue.Fifo
import AccelSimLite.PthreadQueue.Wakeups
import AccelSimLite.PthreadQueue.Benchmark
import AccelSimLite.PthreadQueue.Clients
import AccelSimLite.PthreadQueue.Equivalence
import AccelSimLite.Rtl.Fifo
import AccelSimLite.Rtl.Arbiter
import AccelSimLite.RegressionGate.Defs
import AccelSimLite.RegressionGate.Gate
import AccelSimLite.WorkloadFile.Defs
import AccelSimLite.WorkloadFile.Split
import AccelSimLite.WorkloadFile.Rows
import AccelSimLite.WorkloadFile.Numbers
import AccelSimLite.WorkloadFile.Dependencies
import AccelSimLite.WorkloadFile.Simulation
import AccelSimLite.Lib.OrderStatistics
import AccelSimLite.Lib.Percentile
import AccelSimLite.Statistics.Percentiles
import AccelSimLite.Lib.Traversal
import AccelSimLite.RegressionGate.Slowdown
import AccelSimLite.TrajectoryGraph.Defs
import AccelSimLite.TrajectoryGraph.Components
import AccelSimLite.Simulator.Sampling
import AccelSimLite.Simulator.Greedy
import AccelSimLite.Simulator.QueueBounds
import AccelSimLite.Simulator.Timestamps
import AccelSimLite.PerformanceEngine.Bottleneck
import AccelSimLite.PerformanceEngine.LockCount
import AccelSimLite.Simulator.Utilisation
import AccelSimLite.WorkloadFile.Acceptance
import AccelSimLite.WorkloadFile.NumericColumns
import AccelSimLite.Lib.Spacing
import AccelSimLite.WorkloadFile.Layout
import AccelSimLite.StorageDatapath.Defs
import AccelSimLite.StorageDatapath.Bottleneck
import AccelSimLite.StorageDatapath.WorkloadFile
import AccelSimLite.TrajectoryGraph.EdgeLengths
import AccelSimLite.TrajectoryGraph.Isolation
import AccelSimLite.Firmware.FixedPointFilter
import AccelSimLite.Firmware.FilterAccuracy
import AccelSimLite.Firmware.RingBuffer
import AccelSimLite.Lib.Potential
import AccelSimLite.Lib.Schedule
import AccelSimLite.Lib.LastWrite
import AccelSimLite.PerformanceEngine.Completion
import AccelSimLite.PthreadQueue.Completion
import AccelSimLite.Simulator.ListScheduling
import AccelSimLite.Simulator.ExactTermination
import AccelSimLite.Simulator.LittlesLaw
import AccelSimLite.Report.Bottleneck
import AccelSimLite.Report.CompletedTrace
import AccelSimLite.Cli.Commands
import AccelSimLite.TrajectoryGraph.Turns
import AccelSimLite.TrajectoryGraph.Angles
import AccelSimLite.TrajectoryGraph.TrajectoryFile
import AccelSimLite.TrajectoryGraph.WrittenFile
import AccelSimLite.TrajectoryGraph.Summary
import AccelSimLite.Rtl.RegisterFile
import AccelSimLite.Firmware.HardwareInterfaceMock
import AccelSimLite.WorkloadFile.Image
import AccelSimLite.StorageDatapath.Monotonicity
import AccelSimLite.MemoryController
import AccelSimLite.Lib.Settling
import AccelSimLite.Firmware.Settling
import AccelSimLite.Report.Throughput
import AccelSimLite.RegressionGate.NoFalseAlarm
import AccelSimLite.Simulator.SharedFront
