import Minireg.Lib.Run
import Minireg.Lib.Cascade
import Minireg.Lib.FairLock
import Minireg.Lib.FirstWins
import Minireg.Py.Fnmatch
import Minireg.Upstreams.Base
import Minireg.Upstreams.Netguard
import Minireg.Upstreams.Redirects
import Minireg.Services.Resolver
import Minireg.Services.Query
import Minireg.Services.Ownership
import Minireg.Services.Packages
import Minireg.Services.Displaced
import Minireg.Services.Answers
import Minireg.Services.Tiers
import Minireg.Services.Merge
import Minireg.Services.Reserved
import Minireg.Services.Retire
import Minireg.Services.References
import Minireg.Docker.Naming
import Minireg.Docker.Upstream
import Minireg.Docker.Manifest
import Minireg.Docker.Db
import Minireg.Docker.Policy
import Minireg.Docker.Registry
import Minireg.Docker.Advisories
import Minireg.Docker.BlobVerdict
import Minireg.Docker.Report
import Minireg.Docker.Routing
import Minireg.Docker.Scanning
import Minireg.Docker.Queue
import Minireg.Docker.Workers
import Minireg.Docker.DenyList
import Minireg.Docker.SharedRow
import Minireg.Lib.Window
import Minireg.Docker.Isolation
import Minireg.Lib.Tenancy
import Minireg.Docker.Push
import Minireg.Docker.PushRules
import Minireg.Docker.Housekeeping
import Minireg.Docker.IndexVerdict
import Minireg.Docker.Collection
import Minireg.Docker.Collector
import Minireg.Core.Semver
import Minireg.Core.SemverBounds
import Minireg.Services.Policy
import Minireg.Services.Artifacts
import Minireg.Services.ArtifactRaces
import Minireg.Core.Naming
import Minireg.Py.Raise
import Minireg.Services.NpmPublish
import Minireg.Services.PypiPublish
import Minireg.Services.Database
import Minireg.Api.Registry
import Minireg.Api.Npm
import Minireg.Api.Pypi
import Minireg.Api.Refused
import Minireg.Api.Requests
import Minireg.Api.References
import Minireg.Api.LocalContent
import Minireg.Api.Lookup
import Minireg.Api.Tombstones
import Minireg.Api.Tags
import Minireg.Api.Owners
import Minireg.Upstreams.PypiProvider
import Minireg.Api.Releases
import Minireg.Lib.SingleFlight
import Minireg.Services.Fills
import Minireg.Docker.Fills
import Minireg.Auth.Accounts
import Minireg.Auth.DeviceLogin
import Minireg.Core.HerdGuard
import Minireg.Core.RateLimit
import Minireg.Osv.Record
import Minireg.Osv.Scanner
import Minireg.Osv.Rescore
import Minireg.Osv.Scan
import Minireg.Lib.Transactions
import Minireg.Auth.Users
import Minireg.Auth.Sessions
import Minireg.Auth.Admins
import Minireg.Docker.Access
import Minireg.Cli.Audit
import Minireg.Core.SemverText
import Minireg.Core.SemverModes
import Minireg.Core.SemverPrint
import Minireg.Core.Precedence
import Minireg.Api.RuleSpecs
import Minireg.Core.Quote
import Minireg.Upstreams.NpmProvider
import Minireg.Api.Tarballs
import Minireg.Api.Addresses
import Minireg.Lib.Picker
import Minireg.Api.Pages
import Minireg.Api.Downloads
import Minireg.Core.SemverComplement
import Minireg.Services.FixOffer
import Minireg.Cli.Discovery
import Minireg.Docker.UploadSafety
import Minireg.Core.SemverConverts
import Minireg.Core.SemverRaises
import Minireg.Services.PublishedVersions
import Minireg.Services.DigestChecks
import Minireg.Docker.BlobRanges
import Minireg.Upstreams.Validators
import Minireg.Osv.FixedBounds
import Minireg.Services.CoreMetadata
import Minireg.Services.EvictTo
import Minireg.Services.RenderedCache
import Minireg.Api.PackumentUpdates
import Minireg.Api.TagMaps
import Minireg.Api.TagViews
import Minireg.Upstreams.CargoProvider
import Minireg.Api.CargoIndex
import Minireg.Core.ClientIp
import Minireg.Docker.OpenFill
import Minireg.Docker.PeerTails
import Minireg.Cli.ManagedBlock
import Minireg.Core.SemverJoined
import Minireg.Py.Grouping
import Minireg.Api.NpmAudit
import Minireg.Lib.Markup
import Minireg.Api.SimplePages
import Minireg.Api.PackumentMirror
import Minireg.Lib.Bisect
import Minireg.Osv.Refresh
import Minireg.Lib.TimedLock
import Minireg.Core.Lease
import Minireg.Lib.Paging
import Minireg.Docker.Paths
import Minireg.Docker.Listing
import Minireg.Auth.OidcProvider
import Minireg.Auth.SignOn
