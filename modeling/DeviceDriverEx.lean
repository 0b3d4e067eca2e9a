import DeviceDriverEx.DeferredUnload
import DeviceDriverEx.GlobalmemExit
import DeviceDriverEx.GlobalmemFiles
import DeviceDriverEx.GlobalmemIndependence
import DeviceDriverEx.GlobalmemReadGate
import DeviceDriverEx.GlobalmemReleaseCount
import DeviceDriverEx.GlobalmemSnapshot
import DeviceDriverEx.GlobalmemWakeups
import DeviceDriverEx.GlobalmemWindow
import DeviceDriverEx.KthreadShutdown
import DeviceDriverEx.MKtimerOrder
import DeviceDriverEx.MmapMemory
import DeviceDriverEx.PinnedCopy
import DeviceDriverEx.SlabOwnership
import DeviceDriverEx.ThreadedIrq
import DeviceDriverEx.PinnedPlace
import DeviceDriverEx.PinnedPosition
import DeviceDriverEx.GlobalmemFaults
import DeviceDriverEx.SlabBounds
import DeviceDriverEx.HandedOut
import DeviceDriverEx.StaleReads
import DeviceDriverEx.SlabFailedOpen
import DeviceDriverEx.Strtol
import DeviceDriverEx.Decimal
import DeviceDriverEx.ProcSig
import DeviceDriverEx.ProcSigText
import DeviceDriverEx.ProcString
import DeviceDriverEx.TaskletDynamic
import DeviceDriverEx.ListExit
import DeviceDriverEx.ListWalk
import DeviceDriverEx.SeqTraversal
import DeviceDriverEx.DeferredMessage
import DeviceDriverEx.TimerMessage
import DeviceDriverEx.DeviceReady
import DeviceDriverEx.LabCharCalls
import DeviceDriverEx.SerialMouse
import DeviceDriverEx.FullMouse
import DeviceDriverEx.Multitimer
import DeviceDriverEx.BlockRequests
import DeviceDriverEx.LabWait
import DeviceDriverEx.UioEvents
import DeviceDriverEx.OneThread
import DeviceDriverEx.PutGet
import DeviceDriverEx.PeriodicTimers
import DeviceDriverEx.IoctlVardata
import DeviceDriverEx.AllIrqs
import DeviceDriverEx.ExclWait
import DeviceDriverEx.AllShared
import DeviceDriverEx.PacketDump
import DeviceDriverEx.LabPriv
import DeviceDriverEx.LabSemaphore
