import AikoIsland.Realtime
import AikoIsland.LastAdmin
import AikoIsland.AppendOnly
import AikoIsland.IngestLoss
import AikoIsland.DeliveryAccess
import AikoIsland.ActiveDisconnect
import AikoIsland.SendPath
import AikoIsland.SubscribeFence
import AikoIsland.SendDelivery
import AikoIsland.Takeover
import AikoIsland.DeadlineMatching
import AikoIsland.EchoMatching
import AikoIsland.EchoDrops
import AikoIsland.FixedWidth
import AikoIsland.Ids
import AikoIsland.BusOrder
import AikoIsland.Idempotency
import AikoIsland.Auth
import AikoIsland.SoloRun
import AikoIsland.SuspendedSessions
import AikoIsland.ReadPositions
import AikoIsland.Publishing
import AikoIsland.ReadVersions
import AikoIsland.ReadBounds
import AikoIsland.Resolutions
import AikoIsland.SelfDelimiting
import AikoIsland.SignedBytes
import AikoIsland.Actuation
import AikoIsland.ActuationReplay
import AikoIsland.History
import AikoIsland.SignCounts
import AikoIsland.SingleUse
import AikoIsland.DirectMessages
import AikoIsland.DmMembership
import AikoIsland.DmBlocks
import AikoIsland.DmConvergence
import AikoIsland.Paging
import AikoIsland.Timeline
import AikoIsland.Visibility
import AikoIsland.Security
import AikoIsland.BusClient
import AikoIsland.FcmAuth
import AikoIsland.Peers
import AikoIsland.Communities
import AikoIsland.Directory
import AikoIsland.Calls
import AikoIsland.Devices
import AikoIsland.Planning
import AikoIsland.Reaping
import AikoIsland.DuplicateRequests
import AikoIsland.KeyBinding
import AikoIsland.Takedowns
import AikoIsland.Joining
import AikoIsland.ChannelDeletion
import AikoIsland.FloatingPoint
import AikoIsland.Grouping
import AikoIsland.JsonText
import AikoIsland.Jwks
import AikoIsland.JwksBounds
import AikoIsland.Multikeys
import AikoIsland.Payload
import AikoIsland.PayloadContract
import AikoIsland.Quorum
import AikoIsland.ReactionCounts
import AikoIsland.ReactionRows
import AikoIsland.DeviceRoster
import AikoIsland.HandleChanges
import AikoIsland.Observing
import AikoIsland.KeyRoster
import AikoIsland.Ceremonies
import AikoIsland.CeremonyRefusals
import AikoIsland.DeliveryPlans
import AikoIsland.Checks
import AikoIsland.TextPatterns
import AikoIsland.Mentions
import AikoIsland.CursorErrors
import AikoIsland.SigningErrors
import AikoIsland.ActuationVerdicts
import AikoIsland.IslandIdentity
import AikoIsland.ManifestVerdicts
import AikoIsland.ManifestAdmission
import AikoIsland.Rounding
import AikoIsland.Conversions
import AikoIsland.Minting
import AikoIsland.Calendar
import AikoIsland.LivekitRooms
import AikoIsland.PushReplies
import AikoIsland.FrameAnswers
import AikoIsland.AccountDeletion
import AikoIsland.SessionRevocation
import AikoIsland.Ulids
import AikoIsland.Codecs
import AikoIsland.GossipTargets
import AikoIsland.UtcDateTimes
import AikoIsland.RateWindows
import AikoIsland.BodyLimit
import AikoIsland.Utf8
import AikoIsland.PasskeyLabels
import AikoIsland.BootLayers
import AikoIsland.PercentEncoding
import AikoIsland.OpenOnly
import AikoIsland.WordRuns
import AikoIsland.LogRedaction
import AikoIsland.LogRecords
import AikoIsland.CatchUp
import AikoIsland.Guardians
import AikoIsland.Ledger
import AikoIsland.PendingLedger
import AikoIsland.VetoWindow
import AikoIsland.Flock
import AikoIsland.OneWorker
import AikoIsland.BrokerSignIns
