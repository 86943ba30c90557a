import JniHeaders.Archive
import JniHeaders.Archive.Checksum
import JniHeaders.Archive.File
import JniHeaders.Archive.Inflate
import JniHeaders.Archive.Zip
import JniHeaders.ClassFile
import JniHeaders.ClassFile.ConstantPool
import JniHeaders.ClassFile.Decoder
import JniHeaders.ClassFile.Name
import JniHeaders.ClassFile.Text
import JniHeaders.ClassInfo
import JniHeaders.ClassPath
import JniHeaders.ClassPath.Ancestry
import JniHeaders.ClassPath.Library
import JniHeaders.ClassPath.Oracle
import JniHeaders.ClassPath.Stub
import JniHeaders.CommandLine
import JniHeaders.CommandLine.Arguments
import JniHeaders.Descriptor
import JniHeaders.Descriptor.Parser
import JniHeaders.Error
import JniHeaders.Extraction
import JniHeaders.FileTree
import JniHeaders.Formats
import JniHeaders.Formats.Standard
import JniHeaders.Generation
import JniHeaders.Header
import JniHeaders.Header.Emission
import JniHeaders.Header.Output
import JniHeaders.Input
import JniHeaders.Main
import JniHeaders.NativeType
import JniHeaders.Notice
import JniHeaders.Proofs.DescriptorGrammar
import JniHeaders.Proofs.DescriptorTexts
import JniHeaders.Proofs.CommittedReading
import JniHeaders.Proofs.DescriptorRefusals
import JniHeaders.Proofs.SymbolText
import JniHeaders.Proofs.DottedName
import JniHeaders.Proofs.MethodSorting
import JniHeaders.Proofs.OverloadResolution
import JniHeaders.Proofs.RepeatedDeclarations
import JniHeaders.Proofs.SymbolIdentity
import JniHeaders.Proofs.SymbolReading
import JniHeaders.Symbol
import JniHeaders.Proofs.MergedHeader
import JniHeaders.Proofs.AncestrySearch
import JniHeaders.Proofs.HeaderGrouping
import JniHeaders.Proofs.LookupRuns
import JniHeaders.Proofs.LookupMemory
import JniHeaders.Proofs.LookupHistory
import JniHeaders.Proofs.Inheritance
import JniHeaders.Proofs.SuperclassChain
import JniHeaders.Proofs.KnownClasses
import JniHeaders.Proofs.ExtractionRuns
import JniHeaders.Proofs.ExportedClasses
import JniHeaders.Proofs.SelectedExport
import JniHeaders.Proofs.Identifier
import JniHeaders.Proofs.HeaderText
import JniHeaders.Proofs.HeaderReading
import JniHeaders.Proofs.HeaderComments
import JniHeaders.Proofs.IncludeGuards
import JniHeaders.Proofs.CommentReading
import JniHeaders.Proofs.EntryNames
import JniHeaders.Proofs.InterchangeableInputs
import JniHeaders.Proofs.ArchiveAndDirectory
import JniHeaders.Proofs.ClassFileFormat
import JniHeaders.Proofs.ReaderLaws
import JniHeaders.Proofs.ConstantLayout
import JniHeaders.Proofs.ClassFileRules
import JniHeaders.Proofs.ClassAssembly
import JniHeaders.Proofs.AssembledClasses
import JniHeaders.Proofs.MangledNames
import JniHeaders.Proofs.MethodOutcomes
import JniHeaders.Proofs.MisfiledClasses
import JniHeaders.Proofs.FileTreePaths
import JniHeaders.Proofs.ClassFileNames
import JniHeaders.Proofs.ArchiveWindow
import JniHeaders.Proofs.InterchangeableEntries
import JniHeaders.Proofs.EscapedText
import JniHeaders.Proofs.LayoutDecoding
import JniHeaders.Proofs.StandardReaders
import JniHeaders.Proofs.ContainedLookups
import JniHeaders.Proofs.ClassLibrary
import JniHeaders.Proofs.FileTreeWrites
import JniHeaders.Proofs.NamedTrees
import JniHeaders.Proofs.ExportedNames
import JniHeaders.Proofs.HeaderFiles
