import XrayApi.Transition.Path
import XrayApi.Transition.Prog
import XrayApi.Transition.Pool
import XrayApi.Relational.Table
import XrayApi.Domain.Types
import XrayApi.Xray.Client
import XrayApi.Store.Schema
import XrayApi.Store.Queries
import XrayApi.Store.Valid
import XrayApi.Store.Call
import XrayApi.System.Exec
import XrayApi.Service.Users
import XrayApi.Service.Billing
import XrayApi.Worker.Reconciler
import XrayApi.Worker.Pass
import XrayApi.Worker.Fleet
import XrayApi.Worker.Deletion
import XrayApi.Service.Sequential
import XrayApi.Store.Rows
import XrayApi.Service.Faults
import XrayApi.Service.Acceptance
import XrayApi.Service.Retry
import XrayApi.Store.Assignments
import XrayApi.Worker.Convergence
import XrayApi.Worker.Tombstones
import XrayApi.Transition.Counter
import XrayApi.Transition.Serial
import XrayApi.Service.Renewals
import XrayApi.Worker.Collector
import XrayApi.Worker.Conservation
import XrayApi.Service.RowOps
import XrayApi.Service.UserOps
import XrayApi.Service.Interleaving
import XrayApi.Service.Standing
import XrayApi.Service.Expiry
import XrayApi.Service.Payments
import XrayApi.Transition.Erase
import XrayApi.Transition.Rely
import XrayApi.Service.Deliveries
import XrayApi.Service.Provisioning
import XrayApi.Service.Atomicity
import XrayApi.Service.Inbounds
import XrayApi.Worker.Undisturbed
import XrayApi.Worker.Orphans
import XrayApi.Worker.Currency
import XrayApi.Worker.Interruptions
import XrayApi.Worker.Relay
import XrayApi.Worker.Rejections
import XrayApi.Worker.Health
import XrayApi.Worker.Probes
import XrayApi.Worker.Restarts
import XrayApi.Xray.Tls
import XrayApi.Service.Nodes
import XrayApi.Transition.Branches
import XrayApi.Transition.Control
import XrayApi.Service.NodeOps
import XrayApi.Service.Mirror
import XrayApi.Service.Plans
import XrayApi.Service.Material
import XrayApi.Http.Patch
import XrayApi.Service.WellFormed
import XrayApi.Service.Subscriptions
import XrayApi.Worker.Manager
import XrayApi.Worker.Replacement
import XrayApi.Codec.Text
import XrayApi.Codec.Base64
import XrayApi.Codec.Percent
import XrayApi.Codec.Json
import XrayApi.Codec.Url
import XrayApi.Sublink.Links
import XrayApi.Sublink.Reading
import XrayApi.Sublink.Transport
import XrayApi.Sublink.Credentials
import XrayApi.Store.Entries
import XrayApi.Worker.Panel
import XrayApi.Worker.Rounds
import XrayApi.Worker.Wakeups
import XrayApi.Worker.Triggers
import XrayApi.Service.InboundSets
import XrayApi.Xray.Stats
import XrayApi.Transition.Timed
import XrayApi.Http.RateLimit
import XrayApi.Codec.Fields
import XrayApi.Sublink.UserInfo
import XrayApi.Sublink.Bundles
import XrayApi.Worker.Metering
import XrayApi.Service.Stacking
import XrayApi.Worker.Settle
import XrayApi.Worker.Passing
import XrayApi.Worker.Parallel
import XrayApi.EndToEnd.Enforcement
import XrayApi.EndToEnd.Provisioning
import XrayApi.Codec.Calendar
import XrayApi.Codec.Like
import XrayApi.Http.Api
import XrayApi.Http.Authority
import XrayApi.Http.Footprint
import XrayApi.Http.Ledger
import XrayApi.Http.Paging
import XrayApi.Http.Throttle
import XrayApi.Transition.Ensures
import XrayApi.Service.Refusal
import XrayApi.Http.Errors
