import BeaconHarness.Json.Printer
import BeaconHarness.Json.Reader
import BeaconHarness.Datum.Body
import BeaconHarness.Signing
import BeaconHarness.Ssz.Decoding
import BeaconHarness.Network.Config
import BeaconHarness.Network.Schedule
import BeaconHarness.Consensus.State
import BeaconHarness.Consensus.Block
import BeaconHarness.Engine.Draft
import BeaconHarness.Node.Answers
import BeaconHarness.Settings
import BeaconHarness.Wait.Poll
import BeaconHarness.Wait.Span
import BeaconHarness.Node.Api
import BeaconHarness.Wait.Together
import BeaconHarness.Node.Address
import BeaconHarness.Node.Chain
import BeaconHarness.Node.Fleet
import BeaconHarness.Consensus.Naming
import BeaconHarness.Failure.Description
import BeaconHarness.Datum.Arithmetic
import BeaconHarness.Node.Call
import BeaconHarness.Text.Base64
import BeaconHarness.Yaml.Cursor
import BeaconHarness.Yaml.Plain
import BeaconHarness.Yaml.Kind
import BeaconHarness.Yaml.Node
import BeaconHarness.Proofs.Withdrawal.Payload
import BeaconHarness.Proofs.Consensus.RoundTrip
import BeaconHarness.Proofs.Consensus.Header
import BeaconHarness.Proofs.Consensus.Root
import BeaconHarness.Proofs.Wait.Alarm
import BeaconHarness.Proofs.Wait.Poll
import BeaconHarness.Proofs.Wait.Together
import BeaconHarness.Proofs.Node.Request
import BeaconHarness.Proofs.Node.Init
import BeaconHarness.Proofs.Node.Answers
import BeaconHarness.Proofs.Consensus.Parts
import BeaconHarness.Proofs.Node.PayloadWait
import BeaconHarness.Proofs.Node.InitDeadline
import BeaconHarness.Proofs.Consensus.Acceptance
import BeaconHarness.Proofs.Node.FlagWait
import BeaconHarness.Proofs.Network.Config
import BeaconHarness.Proofs.Network.Dependence
import BeaconHarness.Proofs.Withdrawal.Debit
import BeaconHarness.Proofs.Consensus.NextWithdrawals
import BeaconHarness.Proofs.Wait.HeadStart
import BeaconHarness.Proofs.Node.Cancellation
import BeaconHarness.Proofs.Network.File
import BeaconHarness.Proofs.Network.Schedule
import BeaconHarness.Proofs.Consensus.Json
import BeaconHarness.Proofs.Consensus.Execution
import BeaconHarness.Proofs.Engine.Json
import BeaconHarness.Proofs.Node.Configured
import BeaconHarness.Proofs.Node.FlagFailures
import BeaconHarness.Proofs.Node.EpochCounts
import BeaconHarness.Proofs.Node.StaticChain
import BeaconHarness.Proofs.Node.Status
import BeaconHarness.Proofs.Node.Statuses
import BeaconHarness.Proofs.Signing.Domain
import BeaconHarness.Proofs.Network.NumberReaders
import BeaconHarness.Proofs.Datum.HexText
