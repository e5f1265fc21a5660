import Pyrinas.Ble.Arrivals
import Pyrinas.Ble.Broadcast
import Pyrinas.Ble.Central
import Pyrinas.Ble.Counter
import Pyrinas.Ble.Delivery
import Pyrinas.Ble.Dispatch
import Pyrinas.Ble.EventBytes
import Pyrinas.Ble.Fanout
import Pyrinas.Ble.Isolation
import Pyrinas.Ble.Lengths
import Pyrinas.Ble.Link
import Pyrinas.Ble.LinkSteps
import Pyrinas.Ble.Peripheral
import Pyrinas.Ble.Pong
import Pyrinas.Ble.PubSub
import Pyrinas.Ble.Scanning
import Pyrinas.Ble.Subscriptions
import Pyrinas.Ble.Zombies
import Pyrinas.Build.Describe
import Pyrinas.Cloud.Approval
import Pyrinas.Cloud.Callbacks
import Pyrinas.Cloud.Cbor
import Pyrinas.Cloud.Commands
import Pyrinas.Cloud.Decoded
import Pyrinas.Cloud.DecodedVersion
import Pyrinas.Cloud.Decoding
import Pyrinas.Cloud.DecodingSafety
import Pyrinas.Cloud.Encoding
import Pyrinas.Cloud.Lockout
import Pyrinas.Cloud.Manifest
import Pyrinas.Cloud.Measurements
import Pyrinas.Cloud.PacketIds
import Pyrinas.Cloud.Packets
import Pyrinas.Cloud.Payload
import Pyrinas.Cloud.Process
import Pyrinas.Cloud.Progress
import Pyrinas.Cloud.Reconnect
import Pyrinas.Cloud.Redelivery
import Pyrinas.Cloud.Registry
import Pyrinas.Cloud.Rollback
import Pyrinas.Cloud.Sessions
import Pyrinas.Cloud.Signal
import Pyrinas.Cloud.Startup
import Pyrinas.Cloud.State
import Pyrinas.Cloud.Steps
import Pyrinas.Cloud.Telemetry
import Pyrinas.Cloud.Topics
import Pyrinas.Cloud.Version
import Pyrinas.Cloud.VersionOrder
import Pyrinas.Cloud.VersionString
import Pyrinas.Cloud.Watchdog
import Pyrinas.Comms.Link
import Pyrinas.Comms.Overflow
import Pyrinas.Comms.Receive
import Pyrinas.Comms.ReceiveFraming
import Pyrinas.Comms.ReceiveSafety
import Pyrinas.Comms.Slabs
import Pyrinas.Comms.Transmit
import Pyrinas.Comms.Uart
import Pyrinas.Comms.Wakeup
import Pyrinas.Errno
import Pyrinas.Hci.Buffers
import Pyrinas.Hci.H4
import Pyrinas.Hci.Receiving
import Pyrinas.Hci.Send
import Pyrinas.Hci.Transport
import Pyrinas.Hci.Uart
import Pyrinas.Machinery.Area
import Pyrinas.Machinery.CString
import Pyrinas.Machinery.Cbor
import Pyrinas.Machinery.Format
import Pyrinas.Machinery.Framing
import Pyrinas.Machinery.Interference
import Pyrinas.Machinery.KeyedTable
import Pyrinas.Machinery.MessageQueue
import Pyrinas.Machinery.Outstanding
import Pyrinas.Machinery.PacketFormat
import Pyrinas.Machinery.Refinement
import Pyrinas.Machinery.Regex
import Pyrinas.Machinery.Ring
import Pyrinas.Machinery.Run
import Pyrinas.Machinery.Semaphore
import Pyrinas.Machinery.Slab
import Pyrinas.Machinery.Slots
import Pyrinas.Machinery.Writes
import Pyrinas.Rtc.Completeness
import Pyrinas.Rtc.Pcf85063a
import Pyrinas.Rtc.Soundness
