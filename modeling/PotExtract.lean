import PotExtract.Main
import PotExtract.Python.TokenStream
import PotExtract.Proofs.Python.AdjacentStrings
import PotExtract.Proofs.Python.ClosedCalls
import PotExtract.Proofs.Python.DomainRestriction
import PotExtract.Proofs.Tales.HiddenInterpolations
import PotExtract.Proofs.Python.Brackets
import PotExtract.Proofs.Python.OpenCalls
import PotExtract.Proofs.Python.ArgumentValues
import PotExtract.Proofs.Python.PositionalCalls
import PotExtract.Proofs.Python.ContinuedText
import PotExtract.Proofs.Python.KeywordArguments
import PotExtract.Proofs.Python.LiteralCalls
import PotExtract.Proofs.Markup.Encoding
import PotExtract.Proofs.Tales.EscapedPipes
import PotExtract.Proofs.Tales.InterpolatedCalls
import PotExtract.Proofs.Template.Paragraph
import PotExtract.Proofs.Template.InterpolatedMessages
import PotExtract.Proofs.Disk.ReplacedFiles
import PotExtract.Proofs.Po.Fields
import PotExtract.Proofs.Text.Lines
import PotExtract.Proofs.Po.Flags
import PotExtract.Proofs.Catalog.Flags
import PotExtract.Proofs.Po.ReadRecords
import PotExtract.Proofs.Po.RecordKeys
import PotExtract.Proofs.Catalog.Entries
import PotExtract.Proofs.Po.TemplateHeader
import PotExtract.Proofs.Po.LoadedEntries
import PotExtract.Proofs.Po.SecondSave
import PotExtract.Proofs.Catalog.Grouping
import PotExtract.Proofs.Python.LexemeTexts
import PotExtract.Proofs.Python.CarriageReturns
import PotExtract.Proofs.Python.ReturnTokens
import PotExtract.Proofs.Python.LiteralFeeds
import PotExtract.Proofs.Python.BlankLiterals
import PotExtract.Proofs.Python.LineEnds
import PotExtract.Proofs.Python.ParedText
import PotExtract.Proofs.Python.DeletedComments
import PotExtract.Proofs.Python.InertComments
import PotExtract.Proofs.Python.WrittenLines
import PotExtract.Proofs.Python.CallPlaces
import PotExtract.Proofs.Template.WrittenCode
import PotExtract.Proofs.Markup.Places
import PotExtract.Proofs.Markup.TreeParts
import PotExtract.Proofs.Template.CodeLines
import PotExtract.Proofs.Text.Order
import PotExtract.Proofs.Catalog.Reachable
import PotExtract.Proofs.Catalog.MergeOrder
import PotExtract.Proofs.Catalog.ScanOrder
import PotExtract.Proofs.Catalog.SameMessages
import PotExtract.Proofs.Python.TokenTexts
import PotExtract.Proofs.Markup.DocumentTree
import PotExtract.Proofs.Template.Elements
import PotExtract.Proofs.Template.SentenceTexts
import PotExtract.Proofs.Template.CrossReferences
import PotExtract.Proofs.Text.Words
import PotExtract.Proofs.Template.DynamicText
import PotExtract.Proofs.Zcml.Directives
import PotExtract.Proofs.Po.PrintedEntries
import PotExtract.Proofs.Tales.UniqueClosing
import PotExtract.Proofs.Python.SpacedWords
import PotExtract.Proofs.Python.Grammar
import PotExtract.Proofs.Python.DerivedExpressions
import PotExtract.Proofs.Scanner.UsableMessages
import PotExtract.Proofs.Disk.Drafts
import PotExtract.Proofs.Po.DraftedSave
import PotExtract.Proofs.Disk.Directories
import PotExtract.Proofs.Disk.Paths
import PotExtract.Proofs.Disk.FilePaths
import PotExtract.Proofs.Po.KeptFiles
import PotExtract.Proofs.Extraction.KeptOutput
import PotExtract.Proofs.Python.TidyTexts
import PotExtract.Proofs.Python.CallGate
import PotExtract.Proofs.Python.TrailingComments
import PotExtract.Proofs.Markup.AttributeLines
import PotExtract.Proofs.Tales.PrintedDefines
import PotExtract.Proofs.Po.SharedTexts
import PotExtract.Proofs.Po.DecoratedLines
import PotExtract.Proofs.Po.HeaderCut
import PotExtract.Proofs.Template.OwnAttributes
import PotExtract.Proofs.Python.ShiftedLines
import PotExtract.Proofs.Python.TokenPlaces
import PotExtract.Proofs.Python.LayoutTokens
import PotExtract.Proofs.Python.TokenRequests
import PotExtract.Proofs.Markup.SpelledText
import PotExtract.Proofs.Tales.PrintedAlternatives
import PotExtract.Proofs.Tales.AcceptedInterpolations
import PotExtract.Proofs.Keyword.PrintedSpecs
import PotExtract.Proofs.Format.Decomposition
import PotExtract.Proofs.Comment.Runs
import PotExtract.Proofs.Scanner.Dispatch
import PotExtract.Proofs.Inputs.Expansions
import PotExtract.Proofs.Po.References
import PotExtract.Proofs.Format.Placeholders
import PotExtract.Proofs.Python.Answers
import PotExtract.Proofs.Python.TokenCount
import PotExtract.Proofs.Python.StringTokens
import PotExtract.Proofs.Python.CheckedReads
