import MapChain.Chain.Basic
import MapChain.Chain.Build
import MapChain.Chain.Error
import MapChain.Chain.Flatten
import MapChain.Chain.Output
import MapChain.Chain.Trace
import MapChain.Command.Arguments
import MapChain.Command.Report
import MapChain.Command.Run
import MapChain.Document.Basic
import MapChain.Document.DataUrl
import MapChain.Document.Error
import MapChain.Json.Basic
import MapChain.Json.Number
import MapChain.Json.Quoted
import MapChain.Json.Reader
import MapChain.Json.Writer
import MapChain.Main
import MapChain.Mapping.Codec
import MapChain.Mapping.Segment
import MapChain.Mapping.Table
import MapChain.Mapping.Vlq
import MapChain.Path.Basic
import MapChain.Path.Relative
import MapChain.Path.Spelling
import MapChain.Proofs.Chain.Acyclic
import MapChain.Proofs.Chain.Agreement
import MapChain.Proofs.Chain.Anchors
import MapChain.Proofs.Chain.Arena
import MapChain.Proofs.Chain.Arranged
import MapChain.Proofs.Chain.Blamed
import MapChain.Proofs.Chain.Carried
import MapChain.Proofs.Chain.Consulted
import MapChain.Proofs.Chain.Described
import MapChain.Proofs.Chain.Embedded
import MapChain.Proofs.Chain.Encounters
import MapChain.Proofs.Chain.Ending
import MapChain.Proofs.Chain.Files
import MapChain.Proofs.Chain.Given
import MapChain.Proofs.Chain.Hits
import MapChain.Proofs.Chain.LeadsBack
import MapChain.Proofs.Chain.Link
import MapChain.Proofs.Chain.Located
import MapChain.Proofs.Chain.Minimal
import MapChain.Proofs.Chain.OnDisk
import MapChain.Proofs.Chain.Reached
import MapChain.Proofs.Chain.Recorded
import MapChain.Proofs.Chain.Reloaded
import MapChain.Proofs.Chain.Reopened
import MapChain.Proofs.Chain.Reordered
import MapChain.Proofs.Chain.Resolution
import MapChain.Proofs.Chain.Reworded
import MapChain.Proofs.Chain.Rewritten
import MapChain.Proofs.Chain.RoundTrip
import MapChain.Proofs.Chain.Steady
import MapChain.Proofs.Chain.Versions
import MapChain.Proofs.Chain.Visits
import MapChain.Proofs.Chain.Walk
import MapChain.Proofs.Chain.Written
import MapChain.Proofs.Command.Effects
import MapChain.Proofs.Document.Bounds
import MapChain.Proofs.Document.Forms
import MapChain.Proofs.Document.Texts
import MapChain.Proofs.Document.Written
import MapChain.Proofs.FirstUses
import MapChain.Proofs.Itemwise
import MapChain.Proofs.Json.Bounds
import MapChain.Proofs.Json.Written
import MapChain.Proofs.Mapping.Canonical
import MapChain.Proofs.Mapping.Codec
import MapChain.Proofs.Mapping.Foreign
import MapChain.Proofs.Mapping.Guarded
import MapChain.Proofs.Mapping.Lookup
import MapChain.Proofs.Mapping.Making
import MapChain.Proofs.Mapping.Positions
import MapChain.Proofs.Mapping.Running
import MapChain.Proofs.Mapping.Sorting
import MapChain.Proofs.Mapping.Values
import MapChain.Proofs.Mapping.Vlq
import MapChain.Proofs.Path.Beside
import MapChain.Proofs.Path.Canonical
import MapChain.Proofs.Path.Clamped
import MapChain.Proofs.Path.Normal
import MapChain.Proofs.Path.Relative
import MapChain.Proofs.Path.Written
import MapChain.Proofs.Reference
import MapChain.Proofs.Reference.Comment
import MapChain.Proofs.Reference.Stripped
import MapChain.Proofs.Store.Disk
import MapChain.Proofs.Store.Frame
import MapChain.Proofs.Store.Names
import MapChain.Proofs.Store.Written
import MapChain.Proofs.Text.Base64
import MapChain.Proofs.Text.Blank
import MapChain.Proofs.Text.Length
import MapChain.Proofs.Text.Percent
import MapChain.Proofs.Text.Split
import MapChain.Proofs.Text.Utf8
import MapChain.Reference
import MapChain.Store
import MapChain.Store.Disk
import MapChain.Store.Memory
import MapChain.Store.Provider
import MapChain.Text.Base64
import MapChain.Text.Blank
import MapChain.Text.Decimal
import MapChain.Text.Hex
import MapChain.Text.Percent
import MapChain.Text.Split
import MapChain.Text.Utf8
