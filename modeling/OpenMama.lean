import OpenMama.Common.TimerRuns
import OpenMama.Mama.SubscriptionFailures
import OpenMama.Mama.SubscriptionLocks
import OpenMama.Mama.ObjectCount
import OpenMama.Mama.SubscriptionRuns
import OpenMama.Mama.GroupIndependence
import OpenMama.Mama.FtTakeover
import OpenMama.Mama.GapDetection
import OpenMama.Mama.DqPublisher
import OpenMama.Mama.SyncRuns
import OpenMama.Mama.PlaybackRoundTrip
import OpenMama.Mama.FtAgreement
import OpenMama.Mama.FtMember
import OpenMama.Mama.DateTimeZones
import OpenMama.Mama.RefreshRuns
import OpenMama.Mama.LoadBalancing
import OpenMama.Mama.DictionaryRoundTrips
import OpenMama.Mama.ImageRequestWaits
import OpenMama.Mama.ImageRequestHandle
import OpenMama.Qpid.Publisher
import OpenMama.Mamda.OptionChainRuns
import OpenMama.Mamda.OptionViewRuns
import OpenMama.Mamda.Quantities
import OpenMama.Mamda.Visibility
import OpenMama.Mamda.UniqueId
import OpenMama.Mamda.EntryPosition
import OpenMama.Mamda.DeltaDelivery
import OpenMama.Mamda.ManagedRuns
import OpenMama.Mamda.WriterGroups
import OpenMama.Mamda.LevelDecoding
import OpenMama.Mamda.LevelDifference
import OpenMama.Mamda.DepthDeltas
import OpenMama.Mamda.QuoteMirror
import OpenMama.Mamda.MultiParticipantRouting
import OpenMama.Mamda.TransientRecord
import OpenMama.Mama.FtHeartbeat
import OpenMama.Mamda.FilteredImport
import OpenMama.Mamda.BookCopies
import OpenMama.Mama.DateTimeSeparation
import OpenMama.Mama.DateTimeBuffer
import OpenMama.Mama.FileParser
import OpenMama.Common.WListDestroy
import OpenMama.Common.QueueCapacity
import OpenMama.Common.QueueIterator
import OpenMama.Common.DecimalPrinting
import OpenMama.Common.PropertiesEnvironment
import OpenMama.Mamda.OptionMoneyRange
import OpenMama.Mama.Stats
import OpenMama.Mama.SymbolList
import OpenMama.Mama.Price
