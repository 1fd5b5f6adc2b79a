import DevAdapter.Broker.ClientId
import DevAdapter.Broker.Correlation
import DevAdapter.Broker.PubAck
import DevAdapter.Broker.Repeatable
import DevAdapter.Broker.Responses
import DevAdapter.Broker.SrvList
import DevAdapter.Broker.WaiterList
import DevAdapter.CJson.Build
import DevAdapter.CJson.PrintBuffer
import DevAdapter.ClientJson.CloseRssi
import DevAdapter.ClientJson.OwnBytes
import DevAdapter.CountDownLatch
import DevAdapter.DmaLabels
import DevAdapter.Forwarding
import DevAdapter.QueueOrder
import DevAdapter.Regdev
import DevAdapter.RfMf
import DevAdapter.Server.Bounds
import DevAdapter.Server.Overlap
import DevAdapter.Server.TextLength
import DevAdapter.System.Callbacks
import DevAdapter.System.Delivery
import DevAdapter.System.Downlink
import DevAdapter.System.HeartBeatTimer
import DevAdapter.System.QueueDeadlock
import DevAdapter.System.Silence
import DevAdapter.System.Streaming
import DevAdapter.System.Ticks
import DevAdapter.Timer.Adapter
