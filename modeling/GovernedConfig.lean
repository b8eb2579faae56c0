import GovernedConfig.BareFields
import GovernedConfig.Fault.Notice
import GovernedConfig.Hook.Script
import GovernedConfig.Proofs.Outcome
import GovernedConfig.Store
import GovernedConfig.Terraform
import GovernedConfig.Proofs.Journal
import GovernedConfig.Proofs.Frame
import GovernedConfig.Proofs.Entity.Rollback
import GovernedConfig.Proofs.Entity.Construction
import GovernedConfig.Proofs.Dispatch
import GovernedConfig.Proofs.Number.Places
import GovernedConfig.Proofs.Number.Whole
import GovernedConfig.Proofs.Entity.Programs
import GovernedConfig.Proofs.InfraConfig.Rules
import GovernedConfig.Proofs.InfraConfig.Updates
import GovernedConfig.Proofs.InfraConfig.Construction
import GovernedConfig.Proofs.InfraConfig.Runs
import GovernedConfig.Proofs.Value.Distinct
import GovernedConfig.Proofs.InfraConfig.Bounds
import GovernedConfig.Proofs.InfraConfig.Stamps
import GovernedConfig.Proofs.InfraConfig.Invariant
import GovernedConfig.Proofs.InfraConfig.History
import GovernedConfig.Proofs.Number.Decimals
import GovernedConfig.Proofs.Number.Digits
import GovernedConfig.Proofs.Json.Numbers
import GovernedConfig.Proofs.Json.Texts
import GovernedConfig.Proofs.Value.Zeros
import GovernedConfig.Proofs.Json.RoundTrip
import GovernedConfig.Proofs.Schema.Fits
import GovernedConfig.Proofs.Schema.Check
import GovernedConfig.Proofs.InfraConfig.Typing
import GovernedConfig.Proofs.InfraConfig.Payload
import GovernedConfig.Proofs.InfraConfig.Restoring
import GovernedConfig.Proofs.InfraConfig.RoundTrip
import GovernedConfig.Proofs.InfraConfig.LastEntry
import GovernedConfig.Proofs.Entity.Course
import GovernedConfig.Proofs.Entity.Validation
import GovernedConfig.Proofs.Store.Failures
import GovernedConfig.Proofs.Store.Texts
import GovernedConfig.Proofs.Store.Hybrid
import GovernedConfig.Proofs.Store.Outages
import GovernedConfig.Proofs.Alike
import GovernedConfig.Proofs.Store.Keys
import GovernedConfig.Proofs.Store.Maps
import GovernedConfig.Proofs.Store.Peers
import GovernedConfig.Proofs.Store.Degradation
import GovernedConfig.Proofs.Entity.Requests
import GovernedConfig.Proofs.Entity.Evaluations
import GovernedConfig.Proofs.Entity.Effects
import GovernedConfig.Proofs.InfraConfig.Admission
import GovernedConfig.Proofs.InfraConfig.Verdict
import GovernedConfig.Proofs.Entity.Levels
import GovernedConfig.Proofs.Entity.Sessions
import GovernedConfig.Proofs.InfraConfig.Presence
import GovernedConfig.Proofs.InfraConfig.Effects
import GovernedConfig.Proofs.Entity.Locality
import GovernedConfig.Proofs.InfraConfig.Order
import GovernedConfig.Proofs.Terraform.Commands
import GovernedConfig.Proofs.Lifecycle.Reachable
import GovernedConfig.Proofs.Entity.Defaults
import GovernedConfig.Proofs.Registry.Integrity
import GovernedConfig.Proofs.Product
import GovernedConfig.Proofs.Store.Snapshots
import GovernedConfig.Proofs.Warnings
import GovernedConfig.Proofs.Entity.Refusals
import GovernedConfig.Proofs.Store.Connections
