import Nplex.Common.Machine
import Nplex.Deps.Deque
import Nplex.Deps.Sharing
import Nplex.Match.Meaning
import Nplex.Delivery.Submit
import Nplex.Delivery.Reads
import Nplex.Delivery.Request
import Nplex.Transaction.View
import Nplex.Transaction.Conflict
import Nplex.Transaction.Reopen
import Nplex.Transaction.Lifecycle
import Nplex.Client.Connecting
import Nplex.Client.Correlation
import Nplex.Client.Responses
import Nplex.Client.Mismatch
import Nplex.Client.SubmitCall
import Nplex.Client.Confirm
import Nplex.Client.Disconnected
import Nplex.Client.Waiting
import Nplex.Locking
import Nplex.Addr
import Nplex.Keys
import Nplex.Client.Sending
import Nplex.Wire.Corruption
import Nplex.Transaction.Removal
import Nplex.Store.Users
import Nplex.Transaction.Permissions
import Nplex.Transaction.KeyEnsure
import Nplex.Transaction.Spurious
import Nplex.Client.Overflow
import Nplex.Client.Draining
import Nplex.Client.Shutdown
import Nplex.Delivery.CatchUp
import Nplex.Json.EventData
