import RadioCentral.Advert
import RadioCentral.Advert.Builder
import RadioCentral.Advert.Record
import RadioCentral.Advert.Sighting
import RadioCentral.AppSettings
import RadioCentral.AppSettings.Document
import RadioCentral.AppSettings.Format
import RadioCentral.AppSettings.Reading
import RadioCentral.AppSettings.Text
import RadioCentral.Backend
import RadioCentral.Backend.Job
import RadioCentral.Backend.Link
import RadioCentral.Backend.Radio
import RadioCentral.Backend.Stimulus
import RadioCentral.Bytes
import RadioCentral.Bytes.Hex
import RadioCentral.Central
import RadioCentral.Central.Driver
import RadioCentral.Central.Operation
import RadioCentral.Central.Settle
import RadioCentral.Command.Error
import RadioCentral.Command.Execution
import RadioCentral.Command.Help
import RadioCentral.Command.Line
import RadioCentral.Command.Line.Reading
import RadioCentral.Command.Reply
import RadioCentral.Event
import RadioCentral.Gatt
import RadioCentral.Gatt.Order
import RadioCentral.Hardware
import RadioCentral.Hardware.Failure
import RadioCentral.Hardware.Opening
import RadioCentral.Main
import RadioCentral.Peer
import RadioCentral.Peer.Lifecycle
import RadioCentral.Proofs.Admission
import RadioCentral.Proofs.Advert.Decoding
import RadioCentral.Proofs.Advert.Grammar
import RadioCentral.Proofs.Advert.RoundTrip
import RadioCentral.Proofs.Advert.Sighting
import RadioCentral.Proofs.Backend.CallOrder
import RadioCentral.Proofs.Backend.Cleanup
import RadioCentral.Proofs.Backend.Conduct
import RadioCentral.Proofs.Backend.Exposure
import RadioCentral.Proofs.Backend.Growth
import RadioCentral.Proofs.Backend.Release
import RadioCentral.Proofs.Backend.Schedule
import RadioCentral.Proofs.CentralCoherence
import RadioCentral.Proofs.Commuting
import RadioCentral.Proofs.Configuration
import RadioCentral.Proofs.Conversation
import RadioCentral.Proofs.Delivery
import RadioCentral.Proofs.Dialing
import RadioCentral.Proofs.Disclosure
import RadioCentral.Proofs.Dispatching
import RadioCentral.Proofs.Draining
import RadioCentral.Proofs.EarlyValues
import RadioCentral.Proofs.Enabling
import RadioCentral.Proofs.Format
import RadioCentral.Proofs.HandleConservation
import RadioCentral.Proofs.LinkProtocol
import RadioCentral.Proofs.Listing
import RadioCentral.Proofs.Locality
import RadioCentral.Proofs.NoStall
import RadioCentral.Proofs.Peer.Bookkeeping
import RadioCentral.Proofs.Peer.Course
import RadioCentral.Proofs.Peer.Knobs
import RadioCentral.Proofs.Peer.Ledger
import RadioCentral.Proofs.Peer.Moves
import RadioCentral.Proofs.Peer.Onward
import RadioCentral.Proofs.Preparation
import RadioCentral.Proofs.Registering
import RadioCentral.Proofs.Registry.Accounts
import RadioCentral.Proofs.Registry.Advance
import RadioCentral.Proofs.Registry.Coherence
import RadioCentral.Proofs.Registry.Edits
import RadioCentral.Proofs.Registry.Filing
import RadioCentral.Proofs.Registry.Held
import RadioCentral.Proofs.ReleasedHandles
import RadioCentral.Proofs.Run.Carrying
import RadioCentral.Proofs.Run.Changes
import RadioCentral.Proofs.Run.Lives
import RadioCentral.Proofs.Run.Numbering
import RadioCentral.Proofs.Run.Opening
import RadioCentral.Proofs.Run.Projection
import RadioCentral.Proofs.Run.Recorder
import RadioCentral.Proofs.Run.Settling
import RadioCentral.Proofs.Run.Strand
import RadioCentral.Proofs.Run.Turn
import RadioCentral.Proofs.ScanControl
import RadioCentral.Proofs.ScanCourse
import RadioCentral.Proofs.Scanning
import RadioCentral.Proofs.Sending
import RadioCentral.Proofs.Sending.Episodes
import RadioCentral.Proofs.Shutdown
import RadioCentral.Proofs.Shutdown.Emptying
import RadioCentral.Proofs.StatusReports
import RadioCentral.Proofs.Stopping
import RadioCentral.Proofs.SymmetryBreaking
import RadioCentral.Proofs.Targeting
import RadioCentral.Proofs.Teardown
import RadioCentral.Proofs.Teardown.Parting
import RadioCentral.Proofs.Teardown.Progress
import RadioCentral.Proofs.Toml.Items
import RadioCentral.Proofs.Toml.RoundTrip
import RadioCentral.Proofs.Toml.Scalars
import RadioCentral.Proofs.Toml.Statements
import RadioCentral.Proofs.Uuid.ShortForm
import RadioCentral.Proofs.Uuid.Text
import RadioCentral.Proofs.Waiting
import RadioCentral.Proofs.Writing
import RadioCentral.Radio
import RadioCentral.Radio.Console
import RadioCentral.Radio.Simulated
import RadioCentral.Registry
import RadioCentral.Registry.Lemmas
import RadioCentral.Report.Describe
import RadioCentral.Scan
import RadioCentral.Settings
import RadioCentral.Station
import RadioCentral.Station.Activity
import RadioCentral.Station.Clock
import RadioCentral.Subscription
import RadioCentral.Text.Blank
import RadioCentral.Text.Numeral
import RadioCentral.Text.Quoted
import RadioCentral.Toml.Document
import RadioCentral.Toml.Node
import RadioCentral.Toml.Reading
import RadioCentral.Toml.Reading.Key
import RadioCentral.Toml.Reading.Moment
import RadioCentral.Toml.Reading.Number
import RadioCentral.Toml.Reading.Quoted
import RadioCentral.Toml.Reading.Space
import RadioCentral.Toml.Reading.Value
import RadioCentral.Toml.Value
import RadioCentral.Uuid
import RadioCentral.Uuid.Set
import RadioCentral.Uuid.Text
