import HeidiKernel.Job.ScanOrder
import HeidiKernel.Job.StartBudget
import HeidiKernel.Job.Pressure
import HeidiKernel.Job.ProcessCap
import HeidiKernel.Job.Release
import HeidiKernel.Job.Spawn
import HeidiKernel.Job.Completeness
import HeidiKernel.Job.Backpressure
import HeidiKernel.Job.WallClock
import HeidiKernel.Job.Drain
import HeidiKernel.Job.Recent
import HeidiKernel.GovRule.Canonical
import HeidiKernel.GovRule.Form
import HeidiKernel.GovRule.Spelled
import HeidiKernel.Kernel.Event
import HeidiKernel.Kernel.EventStream
import HeidiKernel.Kernel.Descriptors
import HeidiKernel.Governor.ApplyRules
import HeidiKernel.Governor.GroupRetention
import HeidiKernel.Governor.PidMap
import HeidiKernel.Governor.RuleTable
import HeidiKernel.Ipc.Framing
import HeidiKernel.Daemon.MonitorTick
import HeidiKernel.Metrics.Sampler
import HeidiKernel.Metrics.Tail
import HeidiKernel.Config.PolicyLoad
import HeidiKernel.Daemon.PolicyLiterals
import HeidiKernel.Job.ProcessCount
import HeidiKernel.Config.PolicySave
import HeidiKernel.Daemon.Threads
import HeidiKernel.Tools.KernelCtl
import HeidiKernel.Kernel.EventLoop
import HeidiKernel.Governor.Enforcement
import HeidiKernel.Governor.GroupLru
import HeidiKernel.Job.Deadline
import HeidiKernel.Metrics.MemInfo
import HeidiKernel.Kernel.Main
import HeidiKernel.Governor.CgroupDriver
