import TestingPlatform.Lib.Binary
import TestingPlatform.Lib.Delimited
import TestingPlatform.Lib.Dialogue
import TestingPlatform.Lib.Fallible
import TestingPlatform.Lib.FixedWindow
import TestingPlatform.Lib.ReadCommitted
import TestingPlatform.Lib.History
import TestingPlatform.Lib.Labels
import TestingPlatform.Lib.Lockout
import TestingPlatform.Lib.LockOrder
import TestingPlatform.Lib.Lookup
import TestingPlatform.Lib.Once
import TestingPlatform.Lib.Outline
import TestingPlatform.Lib.Permits
import TestingPlatform.Lib.Snapshots
import TestingPlatform.Lib.Table
import TestingPlatform.Lib.ThreeValued
import TestingPlatform.Core.Basic
import TestingPlatform.Core.RedisUtils
import TestingPlatform.Core.RedisSteps
import TestingPlatform.Core.Challenges
import TestingPlatform.Core.RateLimits
import TestingPlatform.Modules.Contract
import TestingPlatform.Modules.Normalization
import TestingPlatform.Modules.Canonical
import TestingPlatform.Assets.Verification
import TestingPlatform.Assets.Names
import TestingPlatform.Modules.Values
import TestingPlatform.Modules.Vocabulary
import TestingPlatform.Modules.Dnssec
import TestingPlatform.Modules.Execution
import TestingPlatform.Modules.Options
import TestingPlatform.Modules.Ordering
import TestingPlatform.Modules.Pqc
import TestingPlatform.Modules.Registry
import TestingPlatform.Modules.Discovery
import TestingPlatform.Modules.Runners
import TestingPlatform.Modules.Severity
import TestingPlatform.Rls.Context
import TestingPlatform.Scan.Models
import TestingPlatform.Rls.Policies
import TestingPlatform.Rls.Isolation
import TestingPlatform.Rls.Envelope
import TestingPlatform.Assets.Models
import TestingPlatform.Assets.Service
import TestingPlatform.Assets.DnsUtils
import TestingPlatform.Assets.OutboundBudget
import TestingPlatform.Assets.Quorum
import TestingPlatform.Assets.RecordName
import TestingPlatform.Assets.Dependencies
import TestingPlatform.Assets.Steps
import TestingPlatform.Assets.Claims
import TestingPlatform.Assets.Stale
import TestingPlatform.Assets.Atomic
import TestingPlatform.Assets.Coverage
import TestingPlatform.Assets.Proofs
import TestingPlatform.Assets.Progress
import TestingPlatform.Assets.States
import TestingPlatform.Scan.Orchestration
import TestingPlatform.Scan.Lifecycle
import TestingPlatform.Scan.Tasks
import TestingPlatform.Scan.Locks
import TestingPlatform.Scan.Steps
import TestingPlatform.Scan.Refine
import TestingPlatform.Scan.Absorbing
import TestingPlatform.Scan.Results
import TestingPlatform.Scan.Matrix
import TestingPlatform.Scan.Routing
import TestingPlatform.Scan.Checks
import TestingPlatform.Scan.Admission
import TestingPlatform.Scan.Cancellation
import TestingPlatform.Scan.Completion
import TestingPlatform.Scan.Closing
import TestingPlatform.Scan.Timeout
import TestingPlatform.Scan.Sweep
import TestingPlatform.Scan.Announcements
import TestingPlatform.Scan.Channel
import TestingPlatform.Scan.Deeds
import TestingPlatform.Scan.Delivery
import TestingPlatform.Scan.Dispatch
import TestingPlatform.Scan.Egress
import TestingPlatform.Scan.Failures
import TestingPlatform.Scan.Hints
import TestingPlatform.Auth.Totp
import TestingPlatform.Auth.Models
import TestingPlatform.Auth.Service
import TestingPlatform.Auth.Registration
import TestingPlatform.Auth.Locks
import TestingPlatform.Auth.Factor
import TestingPlatform.Auth.Steps
import TestingPlatform.Auth.Sessions
import TestingPlatform.Auth.Enrollment
import TestingPlatform.Auth.SingleUse
import TestingPlatform.Auth.Assurance
import TestingPlatform.Auth.Guesses
import TestingPlatform.Auth.Passwords
import TestingPlatform.Auth.Authentication
import TestingPlatform.Auth.Lifetime
import TestingPlatform.Auth.LoginLockout
import TestingPlatform.Auth.RecoveryCodes
import TestingPlatform.Auth.Revocation
import TestingPlatform.Auth.Visits
import TestingPlatform.Auth.Custody
import TestingPlatform.Auth.Provenance
import TestingPlatform.Api.Sessions
import TestingPlatform.Api.Dependencies
import TestingPlatform.Api.Verification
import TestingPlatform.Api.Authentication
import TestingPlatform.Api.Contexts
import TestingPlatform.Api.Documents
import TestingPlatform.Api.OpenApi
import TestingPlatform.Api.Served
import TestingPlatform.Api.Registrations
import TestingPlatform.Api.Requests
import TestingPlatform.Api.Challenges
