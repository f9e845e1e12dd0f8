import DotGraph.Description.Write
import DotGraph.Json.Print
import DotGraph.Main
import DotGraph.Network
import DotGraph.Proofs.Readers
import DotGraph.Proofs.Soundness
import DotGraph.Proofs.Building
import DotGraph.Dot.Grammar
import DotGraph.Proofs.Wording
import DotGraph.Proofs.Escaping
import DotGraph.Proofs.Lexing
import DotGraph.Proofs.NodeIdForms
import DotGraph.Proofs.Validity
import DotGraph.Proofs.Readability
import DotGraph.Proofs.JsonText
import DotGraph.Proofs.Sources
import DotGraph.Proofs.RoundTrip
import DotGraph.Proofs.Contents
import DotGraph.Proofs.EscapedContents
import DotGraph.Proofs.Contributions
import DotGraph.Json.Grammar
import DotGraph.Proofs.JsonReading
import DotGraph.Proofs.JsonGrammar
import DotGraph.Proofs.GraphSources
import DotGraph.Proofs.Sketches
import DotGraph.Proofs.Fields
import DotGraph.Description.Schema
import DotGraph.Proofs.Acceptance
import DotGraph.Proofs.Schema
import DotGraph.Proofs.Paths
import DotGraph.Proofs.Outputs
import DotGraph.Proofs.Collisions
import DotGraph.Proofs.Spellings
import DotGraph.Proofs.Places
import DotGraph.Batch.Schedule
import DotGraph.Proofs.Interleaving
import DotGraph.Proofs.InputsKept
import DotGraph.Proofs.FailedCommands
import DotGraph.Proofs.WholeSources
import DotGraph.Proofs.FieldOrder
import DotGraph.Description.Layers
import DotGraph.Proofs.Placement
import DotGraph.Proofs.Containers
import DotGraph.Description.Same
import DotGraph.Proofs.SameData
import DotGraph.Proofs.Formats
import DotGraph.Proofs.OctetOrder
import DotGraph.Proofs.LastWrites
import DotGraph.Description.Shorthand
import DotGraph.Proofs.Contexts
import DotGraph.Proofs.OuterMembers
import DotGraph.Proofs.Shorthand
import DotGraph.Proofs.Rewriting
import DotGraph.Proofs.Integers
import DotGraph.Proofs.Drawings
import DotGraph.Proofs.Nesting
import DotGraph.Proofs.Redirection
import DotGraph.Proofs.Indentation
