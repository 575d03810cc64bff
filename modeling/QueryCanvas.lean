import QueryCanvas.Dict
import QueryCanvas.Text.Character
import QueryCanvas.Text.Cut
import QueryCanvas.Sparql.Content
import QueryCanvas.Scalar.Binary64
import QueryCanvas.Diagram
import QueryCanvas.Canvas.Operation
import QueryCanvas.Service
import QueryCanvas.Ontology
import QueryCanvas.Suggestion.Basic
import QueryCanvas.Suggestion.Range
import QueryCanvas.Sparql.Select
import QueryCanvas.Session.Network
import QueryCanvas.Decimal
import QueryCanvas.Toml.Scalar
import QueryCanvas.Toml.Reader
import QueryCanvas.Settings.Load
import QueryCanvas.Json.Reader
import QueryCanvas.Json.Record
import QueryCanvas.Wire.Diagram
import QueryCanvas.Wire.Results
import QueryCanvas.Server
import QueryCanvas.Json.Printer
import QueryCanvas.Wire.Settings
import QueryCanvas.Service.Client
import QueryCanvas.CommandLine.Run
import QueryCanvas.Main
import QueryCanvas.Proofs.Canvas.Refusal
import QueryCanvas.Proofs.Canvas.Layout
import QueryCanvas.Proofs.Session.Names
import QueryCanvas.Proofs.Session.Query
import QueryCanvas.Proofs.Canvas.Output
import QueryCanvas.Proofs.Prefix.Requests
import QueryCanvas.Proofs.Session.Loads
import QueryCanvas.Proofs.Canvas.Atomicity
import QueryCanvas.Proofs.Ontology.Lookup
import QueryCanvas.Proofs.Session.Acceptance
import QueryCanvas.Proofs.Session.Reload
import QueryCanvas.Proofs.Session.Independence
import QueryCanvas.Proofs.Prefix.Agreement
import QueryCanvas.Proofs.Canvas.Optionality
import QueryCanvas.Proofs.Canvas.Identity
import QueryCanvas.Proofs.Session.Suggestions
import QueryCanvas.Proofs.Canvas.Shown
import QueryCanvas.Proofs.Canvas.Feed
import QueryCanvas.Proofs.Canvas.Follower
import QueryCanvas.Proofs.Server.Answers
import QueryCanvas.Proofs.Server.Traffic
import QueryCanvas.Proofs.Session.KnownPrefixes
import QueryCanvas.Proofs.Session.Batches
import QueryCanvas.Proofs.Sparql.Reference
import QueryCanvas.Proofs.Sparql.Variables
import QueryCanvas.Proofs.Canvas.Appearance
import QueryCanvas.Proofs.Ontology.Scan
import QueryCanvas.Proofs.Sparql.LiteralForm
import QueryCanvas.Proofs.Canvas.Drawing
import QueryCanvas.Proofs.Ontology.Accounting
import QueryCanvas.Proofs.Suggestion.Naming
import QueryCanvas.Proofs.Session.Ranges
import QueryCanvas.Proofs.Session.Gate
import QueryCanvas.Proofs.Canvas.Deletion
import QueryCanvas.Proofs.Canvas.Completion
import QueryCanvas.Proofs.Canvas.Click
import QueryCanvas.Proofs.Results.Cells
import QueryCanvas.Proofs.Settings.Outlines
import QueryCanvas.Proofs.Wire.RoundTrip
import QueryCanvas.Proofs.Canvas.Anchoring
