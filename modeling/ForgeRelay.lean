import ForgeRelay.Client.Delivery
import ForgeRelay.Client.Download
import ForgeRelay.Client.ReadFrame
import ForgeRelay.Client.ReceiveBuffer
import ForgeRelay.Client.Retrieval
import ForgeRelay.Client.Wire
import ForgeRelay.Core.BufferOps
import ForgeRelay.Core.Crc32
import ForgeRelay.Core.Directories
import ForgeRelay.Core.FdClose
import ForgeRelay.Core.FdIo
import ForgeRelay.Core.FrameStream
import ForgeRelay.Core.PathJoin
import ForgeRelay.Core.RelPath
import ForgeRelay.Lib.CrashLogic
import ForgeRelay.Lib.Faults
import ForgeRelay.Service.AuditTrail
import ForgeRelay.Service.AuthAttempts
import ForgeRelay.Service.Calls
import ForgeRelay.Service.Config
import ForgeRelay.Service.Deletion
import ForgeRelay.Service.Identifiers
import ForgeRelay.Service.LiveTokens
import ForgeRelay.Service.LogLines
import ForgeRelay.Service.LogRotation
import ForgeRelay.Service.MessageKinds
import ForgeRelay.Service.RefusedGets
import ForgeRelay.Service.ResumeBitmap
import ForgeRelay.Service.Revocation
import ForgeRelay.Service.Settings
import ForgeRelay.Service.ReplySizes
import ForgeRelay.Service.Truncation
import ForgeRelay.Service.Watermark
import ForgeRelay.Storage.Artifacts
import ForgeRelay.Storage.BufferedReads
import ForgeRelay.Storage.ChunkCounts
import ForgeRelay.Storage.ChunkHeader
import ForgeRelay.Storage.ChunkNames
import ForgeRelay.Storage.ChunkWrites
import ForgeRelay.Storage.CleanupRace
import ForgeRelay.Storage.CommitFailures
import ForgeRelay.Storage.Concurrency
import ForgeRelay.Storage.Corruption
import ForgeRelay.Storage.DepotRefinement
import ForgeRelay.Storage.DryRun
import ForgeRelay.Storage.Grace
import ForgeRelay.Storage.Idempotence
import ForgeRelay.Storage.Listing
import ForgeRelay.Storage.PowerLoss
import ForgeRelay.Storage.RangeReads
import ForgeRelay.Storage.Rejections
import ForgeRelay.Storage.SessionLimit
import ForgeRelay.Storage.UploadRoundTrip
import ForgeRelay.Transport.Backpressure
import ForgeRelay.Transport.Chain
import ForgeRelay.Transport.DownloadOrder
import ForgeRelay.Transport.ErrorReplies
import ForgeRelay.Transport.FinalReplies
import ForgeRelay.Transport.IdleSweep
import ForgeRelay.Transport.LiveDownloads
import ForgeRelay.Transport.Outboxes
import ForgeRelay.Transport.Sockets
import ForgeRelay.Transport.UnreadReplies
