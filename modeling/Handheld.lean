import Handheld.Machine
import Handheld.ByteString
import Handheld.Keypad
import Handheld.PercentCoding
import Handheld.WebRequest
import Handheld.SdCard
import Handheld.WebFiles
import Handheld.Upload
import Handheld.UploadFaults
import Handheld.UploadHistory
import Handheld.ListCursor
import Handheld.WifiList
import Handheld.PasswordScreen
import Handheld.Network
import Handheld.NetworkFlags
import Handheld.Handlers
import Handheld.WebCommand
import Handheld.WebSocket
import Handheld.FolderTree
import Handheld.SdBrowser
import Handheld.PathTree
import Handheld.SdVolume
import Handheld.FileActions
import Handheld.Menu
import Handheld.MenuScroll
import Handheld.ListScreens
import Handheld.WifiVisit
import Handheld.TextEditing
import Handheld.UrlDecoding
import Handheld.Listing
import Handheld.TimedWait
import Handheld.Waiting
import Handheld.ListNesting
import Handheld.Registry
import Handheld.WebReadSDCard
import Handheld.SlidingWindow
import Handheld.RssiGraph
import Handheld.InfoScreen
import Handheld.NorFlash
import Handheld.FirmwareUpdate
import Handheld.UpdateSession
import Handheld.UpdateSafety
import Handheld.UpdateAcceptance
import Handheld.OtaRequests
import Handheld.DelimiterScan
import Handheld.Multipart
import Handheld.FormPart
import Handheld.FormBody
import Handheld.FormUpload
import Handheld.FrameStream
import Handheld.WebSocketSending
import Handheld.WebSocketDelivery
import Handheld.WebSocketAcks
import Handheld.WebSocketProgress
import Handheld.WebSocketJam
import Handheld.TcpClient
import Handheld.Numeral
import Handheld.HeaderBlock
import Handheld.ChunkedCoding
import Handheld.HttpMessage
import Handheld.ResponseHead
import Handheld.ResponseSending
import Handheld.ResponseDelivery
import Handheld.BodyDelivery
import Handheld.ResponseReading
import Handheld.ResponseProgress
import Handheld.BodyProgress
import Handheld.FileDownload
