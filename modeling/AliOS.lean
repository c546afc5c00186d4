import AliOS.Lib.Trans
import AliOS.Lib.Cells
import AliOS.Rhino.KErr
import AliOS.Rhino.Kernel
import AliOS.Rhino.Pend
import AliOS.Rhino.Prio
import AliOS.Rhino.TaskOps
import AliOS.Rhino.Ringbuf
import AliOS.Rhino.RingbufBytes
import AliOS.Rhino.RingbufDyn
import AliOS.Lib.Mailbox
import AliOS.Rhino.PendQuiet
import AliOS.Rhino.RingbufFix
import AliOS.Rhino.TaskQuiet
import AliOS.Rhino.Wakeup
import AliOS.Rhino.Queue
import AliOS.Rhino.QueueRun
import AliOS.Rhino.BufQueue
import AliOS.Rhino.BufQueueRun
import AliOS.Kv.Collect
import AliOS.Kv.GcSync
import AliOS.Kv.Init
import AliOS.Kv.PowerCut
import AliOS.Kv.CalcPos
import AliOS.Lib.Clock
import AliOS.Lib.Ledger
import AliOS.Rhino.BlockMoves
import AliOS.Rhino.Event
import AliOS.Rhino.EventRun
import AliOS.Rhino.Mutex
import AliOS.Rhino.MutexOps
import AliOS.Rhino.Sched
import AliOS.Rhino.SemRun
import AliOS.Rhino.System
import AliOS.Rhino.TickRel
import AliOS.Rhino.TickRun
import AliOS.Rhino.Workqueue
import AliOS.Rhino.WorkqueueRun
import AliOS.Rhino.WorkCancel
import AliOS.Rhino.WorkOnce
import AliOS.Rhino.KobjSet
import AliOS.Rhino.KobjSetRun
import AliOS.Rhino.TimerOrder
import AliOS.Rhino.SchedRun
import AliOS.Rhino.Fifo
import AliOS.Utility.HashtableRun
import AliOS.Wsf.RecvRun
import AliOS.Wsf.QueueRun
import AliOS.Coap.RoundTrip
import AliOS.Coap.Requests
import AliOS.Mqtt.Connect
import AliOS.Mqtt.Locks
import AliOS.Mqtt.Unsub
import AliOS.UData.AbsData
import AliOS.Vfs.Files
import AliOS.Mqtt.PacketId
import AliOS.Mqtt.Publish
import AliOS.Yloop.Delayed
import AliOS.Yloop.Readers
import AliOS.Gateway.DevThreads
import AliOS.Gateway.Clients
import AliOS.Gateway.DevIdx
import AliOS.Fota.OtaRun
import AliOS.Fota.Cancel
import AliOS.Fota.CoapDownload
import AliOS.Httpc.Deliver
import AliOS.Alink.Handshake
import AliOS.Alink.Accs
import AliOS.Alink.Buffer
import AliOS.Sal.Links
import AliOS.Sal.Close
import AliOS.Sal.Wakeup
import AliOS.Jse.Precedence
import AliOS.Jse.Control
import AliOS.Kv.GcKeeps
import AliOS.Rhino.DelAtomic
import AliOS.Rhino.RingbufHead
import AliOS.Rhino.Bitmap
import AliOS.Rhino.MmClass
import AliOS.Rhino.MmRun
import AliOS.Jse.JsonRoundTrip
import AliOS.Rhino.MmWhole
import AliOS.Rhino.DynCreate
import AliOS.Utility.Base64
import AliOS.Coap.Length
import AliOS.Coap.Decode
import AliOS.Coap.UriPath
import AliOS.Rhino.MmBlkRun
import AliOS.Utility.HashtableFail
import AliOS.Kv.Traverse
import AliOS.Kv.Positions
import AliOS.Atparser.Read
import AliOS.Mqtt.SendPacket
import AliOS.Mqtt.ReadPacket
import AliOS.Mqtt.TopicMatch
import AliOS.Coap.Block
import AliOS.Vfs.Names
import AliOS.Wsf.Request
import AliOS.Atparser.Worker
import AliOS.Vfs.Register
import AliOS.Utility.UtilsTimer
import AliOS.Utility.JsonToken
import AliOS.Cli.ParsesLine
import AliOS.Cli.Commands
import AliOS.Fota.IfNeed
import AliOS.Gateway.Handlers
import AliOS.Sal.Receive
import AliOS.Fota.Response
import AliOS.Jse.StrSymbol
