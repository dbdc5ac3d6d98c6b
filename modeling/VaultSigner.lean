import VaultSigner.Core.HashMap
import VaultSigner.Core.Region
import VaultSigner.Core.Tally
import VaultSigner.Core.FileSystem
import VaultSigner.Core.Rely
import VaultSigner.Core.Trace
import VaultSigner.Core.Calls
import VaultSigner.Core.Refinement
import VaultSigner.Core.Register
import VaultSigner.Core.Service
import VaultSigner.Core.Once
import VaultSigner.Core.Deadline
import VaultSigner.L1Format.Bytes
import VaultSigner.L1Format.Records
import VaultSigner.L1Format.Crates
import VaultSigner.L1Format.Kdf
import VaultSigner.L1Format.Manifest
import VaultSigner.L1Format.Blob
import VaultSigner.L1Format.Container
import VaultSigner.L1Format.Symbolic
import VaultSigner.L1Format.AtomicWrite
import VaultSigner.L1Format.Serde
import VaultSigner.L1Format.RoundTrip
import VaultSigner.L1Format.EntryNames
import VaultSigner.L2Cache.Retention
import VaultSigner.L2Cache.Throttle
import VaultSigner.L2Cache.Residency
import VaultSigner.L2Cache.Backoff
import VaultSigner.L2Cache.Observed
import VaultSigner.L2Cache.Sweeper
import VaultSigner.L3Logic.Merge
import VaultSigner.L3Logic.MergeIds
import VaultSigner.L3Logic.Ctap2
import VaultSigner.L3Logic.Protocol
import VaultSigner.L3Logic.Ceremony
import VaultSigner.L4Vault.State
import VaultSigner.L4Vault.Facade
import VaultSigner.L4Vault.Lookups
import VaultSigner.L4Vault.Edits
import VaultSigner.L4Vault.Run
import VaultSigner.L4Vault.Changes
import VaultSigner.L4Vault.Alone
import VaultSigner.L4Vault.Sample
import VaultSigner.L4Vault.Request
import VaultSigner.L4Vault.Dispatch
import VaultSigner.L4Vault.Regions
import VaultSigner.L4Vault.Ledger
import VaultSigner.L5Runs.Durable
import VaultSigner.L5Runs.Imports
import VaultSigner.L5Runs.Failures
import VaultSigner.L5Runs.Signing
import VaultSigner.L5Runs.Counting
import VaultSigner.L5Runs.Concurrent
import VaultSigner.L5Runs.Handed
import VaultSigner.L5Runs.Floor
import VaultSigner.L5Runs.Replaced
import VaultSigner.L5Runs.Blobs
import VaultSigner.L5Runs.Purposes
import VaultSigner.L5Runs.Attempts
import VaultSigner.L5Runs.Throttled
import VaultSigner.L5Runs.Remembered
import VaultSigner.L5Runs.Wiped
import VaultSigner.L5Runs.Outrun
import VaultSigner.L5Runs.Validated
import VaultSigner.L5Runs.Owner
import VaultSigner.L5Runs.Registered
import VaultSigner.L5Runs.Served
import VaultSigner.L5Runs.SingleKey
import VaultSigner.L5Runs.Entries
import VaultSigner.L5Runs.Increasing
import VaultSigner.L5Runs.Wrapping
import VaultSigner.L5Runs.Resealed
import VaultSigner.L5Runs.Identity
import VaultSigner.L5Runs.Genuine
import VaultSigner.L5Runs.Verified
import VaultSigner.L5Runs.Processes
import VaultSigner.L5Runs.Recovery
import VaultSigner.L5Runs.Access
