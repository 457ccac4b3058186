import KappaGateway.Hal.FrameRoundTrip
import KappaGateway.Hal.RingAccounting
import KappaGateway.Hal.RequestRuns
import KappaGateway.Aps.HandlerRegistry
import KappaGateway.Zdo.ForeignResponse
import KappaGateway.Zdo.AssociationKeys
import KappaGateway.Zdo.ArchiveRoundTrip
import KappaGateway.Zdo.ArchiveUpdates
import KappaGateway.Sbl.FlashVerified
import KappaGateway.Lib.LoadStore
import KappaGateway.Kapi.Klock
import KappaGateway.Kapi.ReadersWriter
import KappaGateway.Zdo.ZdpCorrelation
import KappaGateway.Zdo.ParserBounds
import KappaGateway.Zdo.DiscoveryOutcome
import KappaGateway.Hal.Assemblers
import KappaGateway.Hal.DispatchOrder
import KappaGateway.Hal.Watchdog
import KappaGateway.Aps.RequestUri
import KappaGateway.Aps.Restful
import KappaGateway.Aps.Snapshots
import KappaGateway.Aps.RequestIsolation
import KappaGateway.Zdo.DeviceUris
import KappaGateway.Kintf.WidgetRegistry
import KappaGateway.Kintf.RegistryRuns
import KappaGateway.Kintf.RequestText
import KappaGateway.Kintf.RemoteMessages
import KappaGateway.Kintf.RemoteAccess
import KappaGateway.Kintf.RemoteLink
import KappaGateway.Kintf.RemoteLinkRuns
import KappaGateway.Kintf.LocalInterface
import KappaGateway.Kintf.LocalInterfaceRuns
import KappaGateway.Lib.Line
import KappaGateway.Kintf.LocalInterfaceWaits
import KappaGateway.Kapi.Jansson
import KappaGateway.Kapi.JsonWrapper
import KappaGateway.Kapi.WrapperShape
import KappaGateway.Kapi.WrapperElements
import KappaGateway.Kapi.FreshValues
import KappaGateway.Kapi.WrapperSteps
import KappaGateway.Kapi.BalancedRuns
import KappaGateway.Kapi.RecvStr
import KappaGateway.Kapi.ReferenceCounts
import KappaGateway.Aps.ObjectLookups
import KappaGateway.Aps.MessageIndicate
import KappaGateway.Hal.AfFields
import KappaGateway.Hal.AfRequests
import KappaGateway.Hal.AfIndications
import KappaGateway.Lib.Scan
import KappaGateway.Kapi.TreeRefinement
import KappaGateway.Aps.Pairing
import KappaGateway.Aps.OneShot
import KappaGateway.Aps.FreshEndpoints
import KappaGateway.Hal.MtRequests
import KappaGateway.Sbl.FlashTermination
import KappaGateway.Sbl.FlashedImage
import KappaGateway.Lib.ShiftRegister
import KappaGateway.Sbl.ImageCrc
import KappaGateway.Watch.KappaioWatch
import KappaGateway.Watch.Supervision
import KappaGateway.Hal.Bootstrap
import KappaGateway.Kintf.RegistryDeletion
import KappaGateway.Lib.Sweep
import KappaGateway.Kapi.HexText
import KappaGateway.Kapi.IntegerText
import KappaGateway.Kapi.HexBytes
import KappaGateway.Lib.Branching
import KappaGateway.Lib.Printing
import KappaGateway.Zdo.HexRenderings
import KappaGateway.Kapi.Selects
import KappaGateway.Lib.CriticalSection
import KappaGateway.Kapi.HeldTrees
import KappaGateway.Kapi.Kbus
import KappaGateway.Kapi.KbusLog
import KappaGateway.Kapi.KbusRuns
import KappaGateway.Lib.Releases
import KappaGateway.Kapi.KbusHandles
import KappaGateway.Kapi.Notification
import KappaGateway.Kapi.Connections
import KappaGateway.Kapi.ConnectionRuns
