import TonWallet.Lib.Machine
import TonWallet.Lib.Digits
import TonWallet.Lib.History
import TonWallet.Encoding.Bytes
import TonWallet.Encoding.Text
import TonWallet.Encoding.Hex
import TonWallet.Encoding.Base64
import TonWallet.Encoding.Currency
import TonWallet.Encoding.Uri
import TonWallet.Crypto.NaCl
import TonWallet.TonConnect.Types
import TonWallet.TonConnect.Event
import TonWallet.Keystore.Controller
import TonWallet.Keystore.RoundTrip
import TonWallet.Passcode.Setup
import TonWallet.Passcode.Reopens
import TonWallet.Creation.Model
import TonWallet.Creation.AllOrNothing
import TonWallet.Navigation.LockGate
import TonWallet.TonConnect.Manager
import TonWallet.Transfer.Model
import TonWallet.Transfer.Steps
import TonWallet.Transfer.Display
import TonWallet.Transfer.Payment
import TonWallet.Transfer.Consent
import TonWallet.Transfer.Declined
import TonWallet.Transfer.Numbering
import TonWallet.Transfer.Replies
import TonWallet.Transfer.Shown
import TonWallet.Transfer.Execution
import TonWallet.Lib.Distinct
import TonWallet.Lib.Pages
import TonWallet.Storage.Transactions
import TonWallet.Storage.Keys
import TonWallet.Storage.Connections
import TonWallet.TonConnect.Registry
import TonWallet.TonConnect.SessionIds
import TonWallet.TonConnect.SessionKey
import TonWallet.Encoding.ByteBuffer
import TonWallet.TonConnect.OwnershipProof
import TonWallet.TonConnect.FailedApproval
import TonWallet.TonConnect.Persisted
import TonWallet.TonConnect.LastEventId
import TonWallet.TonConnect.Stream
import TonWallet.Lib.SharedFlow
import TonWallet.TonConnect.Presented
import TonWallet.TonConnect.PromptCollector
import TonWallet.Lib.Json
import TonWallet.Lib.JsonWeight
import TonWallet.Lib.Segments
import TonWallet.Lib.Overlay
import TonWallet.Storage.Serial
import TonWallet.Storage.Passcode
import TonWallet.Keystore.DamagedRecords
import TonWallet.Storage.Conversion
import TonWallet.Send.Routes
import TonWallet.Send.Pipeline
import TonWallet.Send.Queries
import TonWallet.Send.Scanner
import TonWallet.Send.Recipient
import TonWallet.Settings.Rates
import TonWallet.Sync.Model
import TonWallet.Sync.History
import TonWallet.Passcode.LockScreen
import TonWallet.Passcode.UsableKey
import TonWallet.Encoding.Decimal
import TonWallet.Send.Keypad
import TonWallet.Send.Fee
import TonWallet.Send.Dns
import TonWallet.Client.Download
import TonWallet.TonConnect.Link
import TonWallet.TonConnect.WireEvent
import TonWallet.TonConnect.ConnectReply
import TonWallet.Lib.Groups
import TonWallet.Sync.DisplayedHistory
import TonWallet.Encoding.Numeral
import TonWallet.Encoding.Utf8
import TonWallet.Encoding.LowerCase
import TonWallet.Encoding.DomainName
import TonWallet.Encoding.Crc16
import TonWallet.TonConnect.ProofMessage
import TonWallet.TonConnect.SerializedKey
import TonWallet.Crypto.Frames
import TonWallet.Storage.ConnectionMap
import TonWallet.Sync.DecryptedMessage
import TonWallet.Lib.BitLists
import TonWallet.Lib.Crc
import TonWallet.Cells.Utils
import TonWallet.Cells.Checksums
import TonWallet.Cells.Address
import TonWallet.Cells.BitString
import TonWallet.Cells.BitFields
import TonWallet.Cells.TopUp
import TonWallet.Cells.Builder
import TonWallet.Cells.Items
import TonWallet.Lib.Trees
import TonWallet.Lib.Merkle
import TonWallet.Lib.Walk
import TonWallet.Cells.Hash
import TonWallet.Cells.TreeWalk
import TonWallet.Cells.BocWriter
import TonWallet.Cells.BocReader
import TonWallet.Cells.BocRoundTrip
import TonWallet.Lib.Calls
import TonWallet.Lib.Coefficients
import TonWallet.Lib.KeyEquation
import TonWallet.Qr.GenericGF
import TonWallet.Qr.GenericGFPoly
import TonWallet.Qr.ReedSolomon
import TonWallet.Qr.Version
import TonWallet.Qr.Blocks
import TonWallet.Qr.BitStream
