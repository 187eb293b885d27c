import InstrumentBus.Broker.Basic
import InstrumentBus.Broker.Error
import InstrumentBus.Broker.Hosts
import InstrumentBus.Broker.Listener
import InstrumentBus.Camera
import InstrumentBus.Client.Assignment
import InstrumentBus.Client.Catalogue
import InstrumentBus.Client.Error
import InstrumentBus.CommandLine.Command
import InstrumentBus.CommandLine.Grammar
import InstrumentBus.Control.Basic
import InstrumentBus.Control.Frame
import InstrumentBus.Control.Record
import InstrumentBus.Control.Report
import InstrumentBus.Decimal.Exact
import InstrumentBus.Decimal.Fixed
import InstrumentBus.Decimal.Read
import InstrumentBus.Decimal.Shortest
import InstrumentBus.Device
import InstrumentBus.Driver.Launch
import InstrumentBus.Driver.Local
import InstrumentBus.Driver.Spec
import InstrumentBus.Json.Basic
import InstrumentBus.Json.Read
import InstrumentBus.Json.Write
import InstrumentBus.Logging
import InstrumentBus.Main
import InstrumentBus.Markup.Escape
import InstrumentBus.Markup.Node
import InstrumentBus.Markup.Token
import InstrumentBus.Message.Basic
import InstrumentBus.Message.Read
import InstrumentBus.Message.Write
import InstrumentBus.Network.Address
import InstrumentBus.Number.Format
import InstrumentBus.Number.Sexagesimal
import InstrumentBus.Property.Basic
import InstrumentBus.Property.Element
import InstrumentBus.Property.Error
import InstrumentBus.Property.Terms
import InstrumentBus.Server
import InstrumentBus.Settings.Basic
import InstrumentBus.Settings.Document
import InstrumentBus.Text.Base64
import InstrumentBus.Text.Blank
import InstrumentBus.Text.Digits
import InstrumentBus.Text.Quoted
import InstrumentBus.Text.Unprintable
import InstrumentBus.Text.Utf8
import InstrumentBus.Time.Date
import InstrumentBus.Time.Timestamp
import InstrumentBus.Time.Zoned
import InstrumentBus.Toml.Basic
import InstrumentBus.Toml.Number
import InstrumentBus.Toml.Quoting
import InstrumentBus.Toml.Read
import InstrumentBus.Toml.Write
import InstrumentBus.Wire.Decoder
import InstrumentBus.Wire.Error
import InstrumentBus.Wire.Splitter
import InstrumentBus.Wire.Stream
import InstrumentBus.Wire.Window
import InstrumentBus.Proofs.Broker.Lookup
import InstrumentBus.Proofs.Broker.Run
import InstrumentBus.Proofs.Broker.History
import InstrumentBus.Proofs.Broker.Discovery
import InstrumentBus.Proofs.Message.Fault
import InstrumentBus.Proofs.Wire.Reading
import InstrumentBus.Proofs.Wire.Chunks
import InstrumentBus.Proofs.Markup.Escape
import InstrumentBus.Proofs.Markup.Tag
import InstrumentBus.Proofs.Markup.Tree
import InstrumentBus.Proofs.Message.Frame
import InstrumentBus.Proofs.Decimal.Digits
import InstrumentBus.Proofs.Text.Base64
import InstrumentBus.Proofs.Message.RoundTrip
import InstrumentBus.Proofs.Wire.Invariant
import InstrumentBus.Proofs.Wire.Within
import InstrumentBus.Proofs.Wire.Resync
import InstrumentBus.Proofs.Wire.Recovery
import InstrumentBus.Proofs.Decimal.Packing
import InstrumentBus.Proofs.Decimal.Reading
import InstrumentBus.Proofs.Decimal.Shortest
import InstrumentBus.Proofs.Broker.Ownership
import InstrumentBus.Proofs.Broker.Delivery
import InstrumentBus.Proofs.Property.Accept
import InstrumentBus.Proofs.Decimal.Whole
import InstrumentBus.Proofs.Property.Change
import InstrumentBus.Proofs.Property.Mirror
import InstrumentBus.Proofs.Property.InPlace
import InstrumentBus.Proofs.Property.Shape
import InstrumentBus.Proofs.Client.Lockstep
import InstrumentBus.Proofs.Broker.Arrangement
import InstrumentBus.Proofs.Broker.Withdrawal
import InstrumentBus.Proofs.Broker.Roster
import InstrumentBus.Proofs.Broker.Company
import InstrumentBus.Proofs.Broker.Isolation
import InstrumentBus.Proofs.Server.Loading
import InstrumentBus.Proofs.Markup.Length
import InstrumentBus.Proofs.Message.Relay
import InstrumentBus.Proofs.Property.ChangeSet
import InstrumentBus.Proofs.Device.Refusal
import InstrumentBus.Proofs.Wire.Held
import InstrumentBus.Proofs.Wire.Course
import InstrumentBus.Proofs.Wire.Trace
import InstrumentBus.Proofs.Wire.Token
import InstrumentBus.Proofs.Wire.Element
import InstrumentBus.Proofs.Wire.Oversize
import InstrumentBus.Proofs.Wire.Stray
import InstrumentBus.Proofs.Broker.Inquiry
import InstrumentBus.Proofs.Broker.Payload
import InstrumentBus.Proofs.Time.Calendar
import InstrumentBus.Proofs.Time.Zoned
import InstrumentBus.Proofs.Json.Record
import InstrumentBus.Proofs.Json.Quoted
import InstrumentBus.Proofs.Json.RoundTrip
import InstrumentBus.Proofs.Control.Record
import InstrumentBus.Proofs.Control.Frame
import InstrumentBus.Proofs.Control.Stream
import InstrumentBus.Proofs.Broker.Retained
import InstrumentBus.Proofs.Broker.Presence
import InstrumentBus.Proofs.Broker.Registration
import InstrumentBus.Proofs.Client.Request
import InstrumentBus.Proofs.Property.Latecomer
import InstrumentBus.Proofs.Decimal.Order
import InstrumentBus.Proofs.Property.Verdict
import InstrumentBus.Proofs.Device.Operations
import InstrumentBus.Proofs.Device.Panel
import InstrumentBus.Proofs.Camera.Run
import InstrumentBus.Proofs.Camera.Frames
import InstrumentBus.Proofs.Camera.Jobs
import InstrumentBus.Proofs.Camera.Exposure
import InstrumentBus.Proofs.Property.Asked
import InstrumentBus.Proofs.Property.Snapshot
import InstrumentBus.Proofs.Camera.Refusal
import InstrumentBus.Proofs.Camera.Duration
import InstrumentBus.Proofs.Decimal.Arithmetic
import InstrumentBus.Proofs.Camera.Cooling
import InstrumentBus.Proofs.Time.Timestamp
import InstrumentBus.Proofs.Decimal.Truncation
import InstrumentBus.Proofs.Number.Sexagesimal
import InstrumentBus.Proofs.Device.History
import InstrumentBus.Proofs.Device.Expiry
import InstrumentBus.Proofs.Network.Literal
import InstrumentBus.Proofs.Broker.Admission
import InstrumentBus.Proofs.Text.Cut
import InstrumentBus.Proofs.Client.Assignment
import InstrumentBus.Proofs.Driver.Identity
import InstrumentBus.Proofs.Wire.Window
import InstrumentBus.Proofs.Wire.Nesting
import InstrumentBus.Proofs.Wire.Frames
import InstrumentBus.Proofs.Wire.Budget
