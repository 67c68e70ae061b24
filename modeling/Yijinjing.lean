import Yijinjing.Lib.Mixing
import Yijinjing.Hash
import Yijinjing.Lib.Transition
import Yijinjing.Lib.PagedLog
import Yijinjing.Lib.Publish
import Yijinjing.Journal.Journal
import Yijinjing.Journal.ReaderSeek
import Yijinjing.Journal.Party
import Yijinjing.Journal.PublicationSafe
import Yijinjing.Journal.LateFrames
import Yijinjing.Journal.AppendOnly
import Yijinjing.Journal.SeekRace
import Yijinjing.Journal.FailedChange
import Yijinjing.Journal.Rewind
import Yijinjing.Journal.MergeRuns
import Yijinjing.Journal.WritePaths
import Yijinjing.Journal.Directory
import Yijinjing.Journal.Buffers
import Yijinjing.Paged.Registration
import Yijinjing.Paged.CommThread
import Yijinjing.Paged.Polling
import Yijinjing.Paged.Threads
import Yijinjing.Paged.Shutdown
import Yijinjing.Paged.Grants
import Yijinjing.Paged.Departed
import Yijinjing.Paged.TempPage
import Yijinjing.Paged.Handshake
import Yijinjing.Journal.ClosedPages
import Yijinjing.Journal.PageBounds
import Yijinjing.Paged.Encodings
import Yijinjing.Served.Overflow
import Yijinjing.Journal.Strptime
import Yijinjing.Journal.Strftime
import Yijinjing.Journal.Timer
import Yijinjing.Paged.KeyOrder
import Yijinjing.Paged.Tasks
import Yijinjing.Paged.AddJournal
import Yijinjing.Journal.StrRecords
import Yijinjing.Journal.ReaderCreate
import Yijinjing.Journal.PageScans
import Yijinjing.Journal.Delivery
import Yijinjing.Journal.Sealed
import Yijinjing.Lib.Simulation
import Yijinjing.Paged.Wire
import Yijinjing.Paged.Clients
import Yijinjing.Paged.Clocks
import Yijinjing.Served.Sessions
import Yijinjing.Lib.Coupling
import Yijinjing.Journal.Providers
