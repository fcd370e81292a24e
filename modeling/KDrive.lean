import KDrive.Hotcache.LeastRecent
import KDrive.Hotcache.Interchange
import KDrive.Blobio.DurableBytes
import KDrive.Blobio.ReadMetadata
import KDrive.Blobio.MultipartCleanup
import KDrive.Blobio.FlightSharing
import KDrive.S3.Probes
import KDrive.S3.Admission
import KDrive.S3.Purge
import KDrive.S3.Inventory
import KDrive.LocalFsDev.Confinement
import KDrive.LocalFsDev.Independence
import KDrive.LocalFsDev.Existence
import KDrive.S3.Automaton
import KDrive.Hotcache.FailedPut
import KDrive.Metadata.ErasureLedger
import KDrive.Metadata.WriteIntents
import KDrive.Metadata.OutboxRuns
import KDrive.Server.References
import KDrive.Metadata.StatusAgreement
import KDrive.Worker.Config
import KDrive.Server.Downloads
import KDrive.Server.ChunkLookup
import KDrive.Worker.Promotion
import KDrive.Worker.Repair
