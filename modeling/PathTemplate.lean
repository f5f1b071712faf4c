import PathTemplate.Compiler
import PathTemplate.Function.Standard
import PathTemplate.Program.Run
import PathTemplate.Proofs.Cache.Contents
import PathTemplate.Proofs.Cache.Gates
import PathTemplate.Proofs.Cache.Interleaving
import PathTemplate.Proofs.Cache.Memory
import PathTemplate.Proofs.Cache.Retention
import PathTemplate.Proofs.Cache.SingleFlight
import PathTemplate.Proofs.Compiler.Alternation
import PathTemplate.Proofs.Compiler.Arguments
import PathTemplate.Proofs.Compiler.Artifacts
import PathTemplate.Proofs.Compiler.Casting
import PathTemplate.Proofs.Compiler.Concatenation
import PathTemplate.Proofs.Compiler.Defaulting
import PathTemplate.Proofs.Compiler.Excerpts
import PathTemplate.Proofs.Compiler.Export
import PathTemplate.Proofs.Compiler.Fingerprint
import PathTemplate.Proofs.Compiler.Optimization
import PathTemplate.Proofs.Compiler.Rendering
import PathTemplate.Proofs.Compiler.Safety
import PathTemplate.Proofs.Compiler.Stages
import PathTemplate.Proofs.Compiler.Transparency
import PathTemplate.Proofs.Numeric.Exact
import PathTemplate.Proofs.Outcome
import PathTemplate.Proofs.Packed.RoundTrip
import PathTemplate.Proofs.Program.Binding
import PathTemplate.Proofs.Program.Execution
import PathTemplate.Proofs.Program.Inlining
import PathTemplate.Proofs.Program.Linking
import PathTemplate.Proofs.Program.Naming
import PathTemplate.Proofs.Program.Reading
import PathTemplate.Proofs.Program.Simulation
import PathTemplate.Proofs.Program.Soundness
import PathTemplate.Proofs.Program.Trace
import PathTemplate.Proofs.Program.Watched
import PathTemplate.Proofs.Routine.Depth
import PathTemplate.Proofs.Routine.Generation
import PathTemplate.Proofs.Routine.Names
import PathTemplate.Proofs.Routine.SingleAssignment
import PathTemplate.Proofs.Schema.Registration
import PathTemplate.Proofs.Sink.Appending
import PathTemplate.Proofs.Sink.Brackets
import PathTemplate.Proofs.Sink.Nulls
import PathTemplate.Proofs.Sink.PlainText
import PathTemplate.Proofs.Sink.Records
import PathTemplate.Proofs.Template.Advancing
import PathTemplate.Proofs.Template.Casts
import PathTemplate.Proofs.Template.Chains
import PathTemplate.Proofs.Template.Concatenation
import PathTemplate.Proofs.Template.Following
import PathTemplate.Proofs.Template.Nesting
import PathTemplate.Proofs.Template.Numerals
import PathTemplate.Proofs.Template.Printer
import PathTemplate.Proofs.Template.RoundTrip
import PathTemplate.Proofs.Template.Spacing
import PathTemplate.Proofs.Template.Spans
import PathTemplate.Proofs.Template.Words
import PathTemplate.Proofs.Template.Written
import PathTemplate.Proofs.Text.Offsets
import PathTemplate.Proofs.Tree.Agreement
import PathTemplate.Proofs.Tree.Compaction
import PathTemplate.Proofs.Tree.Copying
import PathTemplate.Proofs.Tree.Drafting
import PathTemplate.Proofs.Tree.Filling
import PathTemplate.Proofs.Tree.InPlace
import PathTemplate.Proofs.Tree.Located
import PathTemplate.Proofs.Tree.Meaning
import PathTemplate.Proofs.Tree.Normal
import PathTemplate.Proofs.Tree.Places
import PathTemplate.Proofs.Tree.Resolved
import PathTemplate.Proofs.Tree.Shape
import PathTemplate.Proofs.Tree.Storage
import PathTemplate.Proofs.Tree.Stored
import PathTemplate.Proofs.Tree.Strictness
import PathTemplate.Proofs.Tree.Trail
import PathTemplate.Proofs.Tree.Typing
import PathTemplate.Proofs.Value.Arithmetic
import PathTemplate.Proofs.Value.Conformance
import PathTemplate.Proofs.Wire.Fitting
import PathTemplate.Proofs.Wire.Groups
import PathTemplate.Proofs.Wire.ModifiedUtf8
import PathTemplate.Proofs.Wire.Progress
import PathTemplate.Proofs.Wire.Reading
import PathTemplate.Proofs.Wire.Restoring
import PathTemplate.Proofs.Wire.RoundTrip
import PathTemplate.Proofs.Wire.Spelling
import PathTemplate.Proofs.Wire.Streaming
import PathTemplate.Proofs.Wire.Truncation
import PathTemplate.Schema.Tables
import PathTemplate.Sink.Binary
import PathTemplate.Sink.Object
import PathTemplate.Sink.Text
import PathTemplate.Tree.Arena
import PathTemplate.Tree.InPlace
import PathTemplate.Tree.Stored
import PathTemplate.Wire.Image
import PathTemplate.Wire.Reader
