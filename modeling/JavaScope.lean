import JavaScope.Analysis
import JavaScope.Classpath.Directory
import JavaScope.Proofs.ClassFile.Framing
import JavaScope.Proofs.ClassFile.PoolLayout
import JavaScope.Proofs.ClassFile.TypeDescriptor
import JavaScope.Proofs.ClassFile.Description
import JavaScope.Proofs.ClassFile.Attributes
import JavaScope.Proofs.ClassFile.Decoding
import JavaScope.Proofs.Stub.Assembly
import JavaScope.Proofs.Text.TwoReadings
import JavaScope.Proofs.Stub.RoundTrip
import JavaScope.Proofs.ClassFile.Safety
import JavaScope.Proofs.Stub.Safety
import JavaScope.Proofs.Value.Equality
import JavaScope.Proofs.Stub.Size
import JavaScope.Proofs.ClassFile.Windows
import JavaScope.Proofs.Lookup
import JavaScope.Proofs.Run.LogHistory
import JavaScope.Proofs.Run.Independence
import JavaScope.Proofs.Run.DepthWarnings
import JavaScope.Proofs.Run.Isolation
import JavaScope.Proofs.Run.StoreHistory
import JavaScope.Proofs.Run.Footprint
import JavaScope.Proofs.Run.Interleaving
import JavaScope.Proofs.Shadow.Layers
import JavaScope.Proofs.Shadow.Pushes
import JavaScope.Proofs.Tables.Declarations
import JavaScope.Proofs.Tables.Lexical
import JavaScope.Proofs.Tables.Nesting
import JavaScope.Proofs.ClassFile.EventGrammar
import JavaScope.Proofs.ClassFile.EventOrder
import JavaScope.Proofs.ClassFile.Streaming
import JavaScope.Proofs.ClassFile.UnknownAttributes
import JavaScope.Proofs.ClassFile.Truncation
import JavaScope.Proofs.ClassFile.PoolIndices
import JavaScope.Proofs.Stub.Acceptance
import JavaScope.Proofs.Stub.ValueReading
import JavaScope.Proofs.Stub.Building
import JavaScope.Proofs.Stub.Refusal
import JavaScope.Proofs.Tables.SupertypeWalk
import JavaScope.Proofs.Tables.SupertypeGraph
import JavaScope.Proofs.Tables.SupertypeDistance
import JavaScope.Proofs.Tables.Overriding
import JavaScope.Proofs.Tables.InheritedMethods
import JavaScope.Proofs.Tables.Headers
import JavaScope.Proofs.Tables.Stamps
import JavaScope.Proofs.Tables.Reordering
import JavaScope.Proofs.Tables.ImportPrecedence
import JavaScope.Proofs.Tables.StaticOwners
import JavaScope.Proofs.Tables.StaticImports
import JavaScope.Proofs.Tables.TypeArguments
import JavaScope.Proofs.Tables.SimpleSupertypes
import JavaScope.Proofs.Tables.Namesakes
import JavaScope.Proofs.Tables.Ambiguity
import JavaScope.Proofs.Name.Candidates
import JavaScope.Proofs.Run.DottedNames
import JavaScope.Proofs.Tables.QualifiedSupertypes
import JavaScope.Proofs.Tables.TableTree
import JavaScope.Proofs.Tables.InnermostScope
import JavaScope.Proofs.Tables.ChainSharing
import JavaScope.Proofs.Shadow.Laziness
import JavaScope.Proofs.ClassFile.DescriptorGrammar
import JavaScope.Proofs.Tables.Spellings
import JavaScope.Proofs.Classpath.Directory
