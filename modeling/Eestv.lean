import Eestv.Data.LinearBufferFifo
import Eestv.Data.LinearBufferRoom
import Eestv.Serial.Session
import Eestv.Serial.HostileBytes
import Eestv.Serial.FrameBounds
import Eestv.Serial.FieldPlacement
import Eestv.Serial.ArchiveRoundTrip
import Eestv.Timestamp.Locality
import Eestv.Timestamp.StartIndices
import Eestv.Timestamp.Instant
import Eestv.Timestamp.ExactDigits
import Eestv.Timestamp.RunFrame
import Eestv.DataBridge.Peers
import Eestv.Net.TcpConnectionStopped
import Eestv.Net.TcpConnectionFlow
import Eestv.Net.TcpConnectionReads
import Eestv.Net.TcpConnectionWakeups
import Eestv.Net.TcpServerAccepts
import Eestv.Net.TcpClientAnswers
import Eestv.Net.TcpClientOrder
import Eestv.Net.TcpClientCancel
import Eestv.Net.UdpDiscoveryClientStop
import Eestv.Net.UdpDiscoveryClientStopped
import Eestv.Net.UdpDiscoveryClientRetry
import Eestv.Net.UdpDiscoveryServerReplies
import Eestv.Net.UdpDiscoveryServerStop
import Eestv.Net.UdpDiscoveryServerStopped
import Eestv.Net.DiscoveryStringNumbers
import Eestv.Library.Nodes
import Eestv.Net.TcpConnectionDelivery
import Eestv.Net.TcpConnectionMessages
import Eestv.DataBridge.Discovery
import Eestv.DataBridge.Exchange
import Eestv.Threading.SpinlockMutex
import Eestv.Library.Shutdown
import Eestv.Net.TcpClientShutdown
import Eestv.Net.TcpConnectionShutdown
import Eestv.Net.UdpDiscoveryServerShutdown
import Eestv.Serial.TypeLists
import Eestv.Library.TextOrder
import Eestv.Timestamp.AcceptedText
import Eestv.Timestamp.Chronology
import Eestv.Timestamp.FormatErrors
