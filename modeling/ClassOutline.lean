import ClassOutline.Access
import ClassOutline.Attribute.Basic
import ClassOutline.Attribute.Decode
import ClassOutline.Attribute.Record
import ClassOutline.Basic
import ClassOutline.Block.Render
import ClassOutline.Block.Tree
import ClassOutline.Class
import ClassOutline.ClassFile
import ClassOutline.Command.Arguments
import ClassOutline.Command.FileTree
import ClassOutline.Command.Run
import ClassOutline.Decimal.Binary
import ClassOutline.Decimal.Shortest
import ClassOutline.Descriptor
import ClassOutline.Error
import ClassOutline.Field
import ClassOutline.Main
import ClassOutline.Member
import ClassOutline.Method
import ClassOutline.Outline
import ClassOutline.Pool.Basic
import ClassOutline.Pool.Constant
import ClassOutline.Pool.Literal
import ClassOutline.Pool.Lookup
import ClassOutline.Stream.Decoder
import ClassOutline.Stream.Event
import ClassOutline.Stream.Progress
import ClassOutline.Stream.Word
import ClassOutline.Text.Basic
import ClassOutline.Text.ModifiedUtf8
import ClassOutline.Text.Utf16
import ClassOutline.Proofs.AttributeRoundTrip
import ClassOutline.Proofs.BlockEdits
import ClassOutline.Proofs.ClassRoundTrip
import ClassOutline.Proofs.DescriptorGrammar
import ClassOutline.Proofs.ExactRead
import ClassOutline.Proofs.Composition
import ClassOutline.Proofs.Nesting
import ClassOutline.Proofs.PoolGrowth
import ClassOutline.Proofs.PoolRoundTrip
import ClassOutline.Proofs.Streaming
import ClassOutline.Proofs.TextCodec
import ClassOutline.Proofs.TextSeams
import ClassOutline.Proofs.BlockPieces
import ClassOutline.Proofs.BlockForest
import ClassOutline.Proofs.AttributeCalls
import ClassOutline.Proofs.AttributeFrame
import ClassOutline.Proofs.PoolAnswers
import ClassOutline.Proofs.FailureCauses
import ClassOutline.Proofs.StrictMode
import ClassOutline.Proofs.PoolInvariant
import ClassOutline.Proofs.PoolLayout
import ClassOutline.Proofs.AttributeGrammar
import ClassOutline.Proofs.Lookups
import ClassOutline.Proofs.StreamFailures
import ClassOutline.Proofs.ClassErrors
import ClassOutline.Proofs.ClassLayout
import ClassOutline.Proofs.BlockLocality
import ClassOutline.Proofs.BlockOutput
import ClassOutline.Proofs.BlockRestore
import ClassOutline.Proofs.BlockCommute
import ClassOutline.Proofs.BraceBalance
import ClassOutline.Proofs.TextGrammar
import ClassOutline.Proofs.AttributeExtent
import ClassOutline.Proofs.DescriptorErrors
import ClassOutline.Proofs.LiteralReading
import ClassOutline.Proofs.AttributeEffects
import ClassOutline.Proofs.ClassZero
import ClassOutline.Proofs.Signatures
import ClassOutline.Proofs.ExceptionTables
