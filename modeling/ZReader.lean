import ZReader.Storage.Operations
import ZReader.Storage.Rows
import ZReader.Storage.Maintenance
import ZReader.Storage.Postings
import ZReader.Storage.Summaries
import ZReader.Storage.Listing
import ZReader.Storage.Rebuild
import ZReader.Storage.Coherence
import ZReader.Storage.Edits
import ZReader.Storage.Reading
import ZReader.Storage.Ownership
import ZReader.Lib.Transition
import ZReader.Storage.Runs
import ZReader.Storage.ProgressTimes
import ZReader.Storage.ProgressChain
import ZReader.Lib.Ordered
import ZReader.Storage.Queries
import ZReader.Storage.Search
import ZReader.Storage.SearchPlans
import ZReader.Handlers.Books
import ZReader.Handlers.BookWrites
import ZReader.Handlers.BookRuns
import ZReader.Storage.ProgressListing
import ZReader.Handlers.Progress
import ZReader.Handlers.ProgressFeed
import ZReader.Frontend.OfflineQueue
import ZReader.Frontend.OfflineRuns
import ZReader.Frontend.Reader
import ZReader.Frontend.ReaderRuns
import ZReader.Frontend.Devices
import ZReader.Lib.Tokens
import ZReader.Services.Admission
import ZReader.Services.Inflight
import ZReader.Services.InflightRuns
import ZReader.Frontend.SharedDownload
import ZReader.Frontend.SharedDownloadRuns
import ZReader.Storage.Accounts
import ZReader.Handlers.Accounts
import ZReader.Storage.Content
import ZReader.Storage.ContentRuns
import ZReader.Frontend.CacheStorage
import ZReader.Frontend.OfflineBooks
import ZReader.Frontend.ServiceWorker
import ZReader.Frontend.BookDownload
import ZReader.Frontend.BookDownloadRuns
import ZReader.Frontend.PartialDownloads
import ZReader.Frontend.Playback
import ZReader.Frontend.PlaybackRuns
import ZReader.Frontend.BookFile
import ZReader.Backup.Archive
import ZReader.Backup.Verification
import ZReader.Backup.Copying
import ZReader.Backup.Creation
import ZReader.Backup.Restoring
import ZReader.Backup.RoundTrip
import ZReader.Handlers.UploadRuns
import ZReader.Backup.Online
import ZReader.Backup.Consistency
import ZReader.Frontend.Shelf
import ZReader.Frontend.ShelfRuns
import ZReader.Handlers.Bookmarks
import ZReader.Frontend.ApiBases
import ZReader.Handlers.Login
import ZReader.Lib.Integers
import ZReader.Storage.Pages
import ZReader.Storage.ProgressSince
import ZReader.Handlers.BookPages
import ZReader.Storage.ShelfListing
import ZReader.Handlers.EpubArchives
import ZReader.Handlers.EpubRoots
import ZReader.Handlers.BookQueries
import ZReader.Lib.Ecma
import ZReader.Frontend.Categories
import ZReader.Services.Endpoint
import ZReader.Services.EndpointRuns
import ZReader.Services.Credentials
import ZReader.Handlers.MissingHashes
import ZReader.Storage.HashBackfill
import ZReader.Handlers.LegacyHashes
import ZReader.Handlers.LegacyHashRuns
import ZReader.Lib.Windows
import ZReader.Middleware.RateLimiter
import ZReader.Services.AudioCache
import ZReader.Services.DiskCache
import ZReader.Frontend.StoredZip
import ZReader.Frontend.EpubRepair
import ZReader.Frontend.SpeechTree
import ZReader.Frontend.SpeechParts
import ZReader.Handlers.UploadPaths
import ZReader.Middleware.Independence
import ZReader.Lib.Base64
import ZReader.Lib.Json
import ZReader.Services.Token
import ZReader.Frontend.Preload
import ZReader.Frontend.PreloadCancels
import ZReader.Frontend.PreloadRuns
import ZReader.Frontend.CoolDown
import ZReader.Frontend.SpeechRuns
import ZReader.Frontend.SpeechNavigation
import ZReader.Lib.Isolation
import ZReader.Storage.Acting
import ZReader.Storage.Lookups
import ZReader.Storage.Tenants
import ZReader.Storage.Erasure
import ZReader.Middleware.Auth
import ZReader.Storage.Upgrades
import ZReader.Handlers.Processing
import ZReader.Handlers.ProcessingRuns
