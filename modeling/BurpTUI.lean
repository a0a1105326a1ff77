import BurpTUI.Base.StepSystem
import BurpTUI.Base.Search
import BurpTUI.Base.Executor
import BurpTUI.Http.Message
import BurpTUI.Http.RawText
import BurpTUI.Http.CrlfText
import BurpTUI.Http.HttpParser
import BurpTUI.Http.Wire
import BurpTUI.Http.ParserDelivery
import BurpTUI.Http.Script
import BurpTUI.Http.TakenMessages
import BurpTUI.Http.MessageSequence
import BurpTUI.Http.Framing
import BurpTUI.Proxy.InterceptManager
import BurpTUI.Proxy.InterceptToggle
import BurpTUI.Proxy.Routing
import BurpTUI.Proxy.AsyncOps
import BurpTUI.Proxy.Exchange
import BurpTUI.Proxy.ExchangeFlow
import BurpTUI.Proxy.Session
import BurpTUI.Proxy.PortText
import BurpTUI.Proxy.SessionFlow
import BurpTUI.Proxy.MitmSession
import BurpTUI.Proxy.MitmFlow
import BurpTUI.Proxy.ProxySystem
import BurpTUI.Proxy.HandedOnce
import BurpTUI.Proxy.Answer
import BurpTUI.Proxy.OneAnswer
import BurpTUI.Tui.HttpFormatter
import BurpTUI.Tui.TextEditor
import BurpTUI.Tui.ProxyTab
import BurpTUI.Tui.HeldRequest
import BurpTUI.Base.LinkedList
import BurpTUI.Proxy.CertCache
import BurpTUI.Proxy.InterceptCustody
import BurpTUI.Tui.UpdateTrigger
import BurpTUI.Proxy.Aside
import BurpTUI.Proxy.TransactionIds
import BurpTUI.Base.SerialWriter
import BurpTUI.Proxy.WriteQueues
import BurpTUI.Proxy.MitmQueues
import BurpTUI.Proxy.Relay
import BurpTUI.Base.Grows
import BurpTUI.Proxy.ServerData
import BurpTUI.Proxy.Closed
import BurpTUI.Base.Marked
import BurpTUI.Proxy.StaleTimer
import BurpTUI.Http.Executed
import BurpTUI.Proxy.ReportedResponse
import BurpTUI.Proxy.RecordedStatus
import BurpTUI.Util.Encoding
import BurpTUI.Util.Base64
import BurpTUI.Util.UrlHex
import BurpTUI.Util.Malformed
import BurpTUI.Base.Recency
import BurpTUI.Base.Tenure
import BurpTUI.Proxy.CacheHistory
import BurpTUI.Base.TextBuffer
import BurpTUI.Tui.FlatBuffer
import BurpTUI.Tui.EditorSafety
import BurpTUI.Proxy.ProxyServer
import BurpTUI.Proxy.HeaderCase
import BurpTUI.Proxy.SizeLimit
import BurpTUI.Http.Reply
import BurpTUI.Proxy.ExchangeEnd
import BurpTUI.Base.Monitor
import BurpTUI.Util.EventQueue
import BurpTUI.Http.Fragments
import BurpTUI.Http.ParsedResponse
import BurpTUI.Proxy.Destination
import BurpTUI.Http.RawParse
import BurpTUI.Proxy.LocalEndpoint
import BurpTUI.Tui.RepeaterManager
import BurpTUI.Tui.PreparedRequest
import BurpTUI.Tui.RepeaterTarget
import BurpTUI.Proxy.FailedLookup
import BurpTUI.Proxy.CertGenerator
import BurpTUI.Tui.SetText
import BurpTUI.Tui.BodyLines
import BurpTUI.Tui.ScrollableViewer
import BurpTUI.Tui.EditorSteps
import BurpTUI.Tui.DragGesture
import BurpTUI.Tui.SelectedText
import BurpTUI.Tui.MessageRows
import BurpTUI.Tui.EditorClick
import BurpTUI.Tui.EditorScroll
import BurpTUI.Base.Utf8
import BurpTUI.Tui.Utf8Editing
import BurpTUI.Tui.HexDump
import BurpTUI.Tui.SanitizedText
import BurpTUI.Tui.RepeaterSends
import BurpTUI.Storage.MemoryStore
import BurpTUI.Http.WholeReply
import BurpTUI.Proxy.CompleteHistory
import BurpTUI.Proxy.Attended
import BurpTUI.Proxy.Tunnel
import BurpTUI.Proxy.TlsSetup
import BurpTUI.Tui.HistoryTab
import BurpTUI.Tui.LiveTab
import BurpTUI.Tui.RepeaterTab
import BurpTUI.Tui.Resend
import BurpTUI.Base.SerialHistory
import BurpTUI.Util.EventOrder
import BurpTUI.Proxy.SslInit
import BurpTUI.Proxy.LeafTrust
import BurpTUI.Proxy.MitmAnswer
import BurpTUI.Base.OscReader
import BurpTUI.Util.Clipboard
import BurpTUI.Tui.Copying
import BurpTUI.Proxy.OwnAnswers
