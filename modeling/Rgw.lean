import Rgw.ByteStrings
import Rgw.SortedMaps
import Rgw.TextCodecs
import Rgw.Interaction
import Rgw.Moments
import Rgw.Types
import Rgw.Sal
import Rgw.SalSqlite
import Rgw.StoreInvariants
import Rgw.AdminOps
import Rgw.Http
import Rgw.SigV4
import Rgw.AuthorizationText
import Rgw.AwsChunked
import Rgw.HashChains
import Rgw.ChunkChain
import Rgw.Auth
import Rgw.RestS3Wire
import Rgw.RestS3Handlers
import Rgw.CanonicalRequest
import Rgw.SignatureBinding
import Rgw.UserIds
import Rgw.PrefixRollup
import Rgw.Paging
import Rgw.ListingScan
import Rgw.ListingPages
import Rgw.S3Discipline
import Rgw.OwnerIsolation
import Rgw.BucketIncarnations
import Rgw.UserMutations
import Rgw.UserConcurrency
import Rgw.AdminPrivileges
import Rgw.RowFilter
import Rgw.ChunkRoundTrip
import Rgw.PlainUploads
import Rgw.StoreRefinement
import Rgw.EmailClashes
import Rgw.BucketPages
import Rgw.BucketQuota
import Rgw.OrphanedBuckets
import Rgw.StoredCaps
import Rgw.ReachableStores
import Rgw.Purging
import Rgw.CanonicalForms
import Rgw.ChunkFormat
import Rgw.StoredAttrs
import Rgw.Utf8Lossy
import Rgw.HeaderBinding
import Rgw.ObjectResponses
import Rgw.ObjectReads
import Rgw.RangeReads
import Rgw.ObjectRoundTrip
import Rgw.StorageClasses
import Rgw.DeleteDocuments
import Rgw.MultiDelete
import Rgw.CutDocuments
import Rgw.UserAtomicity
import Rgw.CapTexts
import Rgw.CapGrants
import Rgw.BucketEnumeration
import Rgw.UserEnumeration
import Rgw.Languages
import Rgw.BucketNames
import Rgw.ReadSnapshots
import Rgw.RequestShapes
import Rgw.RequestAtomicity
import Rgw.RequestOrders
import Rgw.Rgwd
import Rgw.AdminCalls
import Rgw.OwnCalls
import Rgw.Mediation
import Rgw.ClientSigning
import Rgw.SignedRoundTrip
import Rgw.Replies
import Rgw.Scans
import Rgw.ConcurrentListings
import Rgw.Lockstep
import Rgw.RadosgwAdmin
import Rgw.FrontEnds
import Rgw.CommandLists
import Rgw.Restarts
import Rgw.PurgeRestarts
