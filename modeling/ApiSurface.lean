import ApiSurface.Archive.BlockSort
import ApiSurface.Archive.Crc32
import ApiSurface.Archive.Directory
import ApiSurface.Archive.Expand
import ApiSurface.Archive.Inflate
import ApiSurface.Archive.RangeCode
import ApiSurface.ClassFile.Basic
import ApiSurface.ClassFile.Constant
import ApiSurface.ClassFile.Fault
import ApiSurface.ClassFile.Flags
import ApiSurface.ClassFile.ModifiedUtf8
import ApiSurface.ClassFile.Reader
import ApiSurface.ClassFile.Scalar
import ApiSurface.ClassFile.Value
import ApiSurface.ClassPath.Handle
import ApiSurface.ClassPath.Names
import ApiSurface.ClassPath.Source
import ApiSurface.CommandLine.Arguments
import ApiSurface.CommandLine.Overrides
import ApiSurface.CommandLine.Run
import ApiSurface.CommandLine.Word
import ApiSurface.Descriptor.Basic
import ApiSurface.Descriptor.Parser
import ApiSurface.Disk.Basic
import ApiSurface.Disk.Path
import ApiSurface.Disk.Replace
import ApiSurface.Fault
import ApiSurface.Log.Loggers
import ApiSurface.Log.Record
import ApiSurface.Log.Sinks
import ApiSurface.Main
import ApiSurface.Number.Binary
import ApiSurface.Number.Decimal
import ApiSurface.Number.Digit
import ApiSurface.Number.Integer
import ApiSurface.Number.Real
import ApiSurface.Proofs.ClassFile.Attributes
import ApiSurface.Proofs.ClassFile.CodePoints
import ApiSurface.Proofs.ClassFile.Faults
import ApiSurface.Proofs.ClassFile.Format
import ApiSurface.Proofs.ClassFile.Pool
import ApiSurface.Proofs.ClassFile.RoundTrip
import ApiSurface.Proofs.ClassFile.Slots
import ApiSurface.Proofs.ClassFile.Texts
import ApiSurface.Proofs.ClassFile.Truncation
import ApiSurface.Proofs.ClassFile.Uses
import ApiSurface.Proofs.ClassFile.Utf16
import ApiSurface.Proofs.ClassPath.History
import ApiSurface.Proofs.ClassPath.Names
import ApiSurface.Proofs.ClassPath.Packaging
import ApiSurface.Proofs.ClassPath.Unaffected
import ApiSurface.Proofs.Descriptor.Grammar
import ApiSurface.Proofs.Descriptor.Methods
import ApiSurface.Proofs.Descriptor.Types
import ApiSurface.Proofs.Descriptor.Unambiguous
import ApiSurface.Proofs.Descriptor.Written
import ApiSurface.Proofs.Disk.Evolves
import ApiSurface.Proofs.Disk.Grows
import ApiSurface.Proofs.Disk.Preserves
import ApiSurface.Proofs.Disk.Replacing
import ApiSurface.Proofs.Disk.Search
import ApiSurface.Proofs.Disk.Tree
import ApiSurface.Proofs.Disk.Ways
import ApiSurface.Proofs.Log.Delivery
import ApiSurface.Proofs.Log.Ways
import ApiSurface.Proofs.Number.Grid
import ApiSurface.Proofs.Number.Narrowing
import ApiSurface.Proofs.Number.Neighbours
import ApiSurface.Proofs.Number.Notation
import ApiSurface.Proofs.Number.Shortening
import ApiSurface.Proofs.Number.Shortest
import ApiSurface.Proofs.Scan.Alike
import ApiSurface.Proofs.Scan.AllOrNothing
import ApiSurface.Proofs.Scan.Apart
import ApiSurface.Proofs.Scan.Blocks
import ApiSurface.Proofs.Scan.CanonicalForm
import ApiSurface.Proofs.Scan.Encodable
import ApiSurface.Proofs.Scan.EnumConstructors
import ApiSurface.Proofs.Scan.Evolution
import ApiSurface.Proofs.Scan.FolderTargets
import ApiSurface.Proofs.Scan.HiddenMembers
import ApiSurface.Proofs.Scan.Interleaving
import ApiSurface.Proofs.Scan.LeftOutMethods
import ApiSurface.Proofs.Scan.Locality
import ApiSurface.Proofs.Scan.Packaging
import ApiSurface.Proofs.Scan.PublicInterface
import ApiSurface.Proofs.Scan.Rescan
import ApiSurface.Proofs.Scan.StoredNames
import ApiSurface.Proofs.Scan.UnreadableTypes
import ApiSurface.Proofs.Scan.WrittenFiles
import ApiSurface.Proofs.Settings.Documents
import ApiSurface.Proofs.Settings.Effective
import ApiSurface.Proofs.Snapshot.DoublePrecision
import ApiSurface.Proofs.Snapshot.Layout
import ApiSurface.Proofs.Snapshot.Literals
import ApiSurface.Proofs.Snapshot.Outline
import ApiSurface.Proofs.Snapshot.Overloads
import ApiSurface.Proofs.Snapshot.SinglePrecision
import ApiSurface.Proofs.Snapshot.TextLiterals
import ApiSurface.Proofs.Snapshot.Written
import ApiSurface.Proofs.Text.Alphabet
import ApiSurface.Proofs.Text.Globs
import ApiSurface.Proofs.Universe.Agreement
import ApiSurface.Proofs.Universe.Alike
import ApiSurface.Proofs.Universe.Ancestors
import ApiSurface.Proofs.Universe.Closure
import ApiSurface.Proofs.Universe.Enumeration
import ApiSurface.Proofs.Universe.FirstReference
import ApiSurface.Proofs.Universe.SubPackages
import ApiSurface.Proofs.Universe.Superclasses
import ApiSurface.Proofs.Universe.Table
import ApiSurface.Proofs.Universe.Walks
import ApiSurface.Proofs.Visibility.ClassAnnotations
import ApiSurface.Proofs.Visibility.Classification
import ApiSurface.Proofs.Visibility.InternalMarkers
import ApiSurface.Proofs.Visibility.Kinds
import ApiSurface.Proofs.Visibility.Rules
import ApiSurface.Scan.Pool
import ApiSurface.Scan.Target
import ApiSurface.Settings.Basic
import ApiSurface.Settings.Fault
import ApiSurface.Settings.Load
import ApiSurface.Settings.Overload
import ApiSurface.Snapshot.Block
import ApiSurface.Snapshot.Literal
import ApiSurface.Text.Base64
import ApiSurface.Text.Blank
import ApiSurface.Text.CodePoint
import ApiSurface.Text.Glob
import ApiSurface.Text.Hex
import ApiSurface.Text.Printable
import ApiSurface.Text.Quoted
import ApiSurface.Universe.Basic
import ApiSurface.Universe.Enumeration
import ApiSurface.Universe.Exclusion
import ApiSurface.Universe.Record
import ApiSurface.Visibility.Classification
import ApiSurface.Visibility.Markers
import ApiSurface.Visibility.Metadata
import ApiSurface.Visibility.Rules
import ApiSurface.Yaml.Cursor
import ApiSurface.Yaml.Date
import ApiSurface.Yaml.Meaning
import ApiSurface.Yaml.Merge
import ApiSurface.Yaml.Node
import ApiSurface.Yaml.Numeral
import ApiSurface.Yaml.Scalar
import ApiSurface.Yaml.Tag
import ApiSurface.Yaml.Token
import ApiSurface.Yaml.Value
