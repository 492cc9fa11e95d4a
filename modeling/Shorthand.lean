import Shorthand.Text.Blank
import Shorthand.Text.Word
import Shorthand.Text.Lowercase
import Shorthand.Text.Newline
import Shorthand.Text.Quoted
import Shorthand.Indentation
import Shorthand.Comment
import Shorthand.Compiler
import Shorthand.Standard
import Shorthand.Main
import Shorthand.Proofs.Agreement
import Shorthand.Proofs.Numbering
import Shorthand.Proofs.Closing
import Shorthand.Proofs.Element
import Shorthand.Proofs.Tree
import Shorthand.Proofs.Limit
import Shorthand.Proofs.Roles
import Shorthand.Proofs.Nesting
import Shorthand.Proofs.Content
import Shorthand.Proofs.Source
import Shorthand.Proofs.Filling
import Shorthand.Proofs.FilledSource
import Shorthand.Proofs.Forest
import Shorthand.Proofs.Indentation
import Shorthand.Proofs.FileTree
import Shorthand.Proofs.Subtree
import Shorthand.Proofs.CacheFiles
import Shorthand.Proofs.ExpiringMap
import Shorthand.Proofs.CachedCompiler
import Shorthand.Proofs.Recompile
import Shorthand.Proofs.Isolation
import Shorthand.Proofs.OnceRun
import Shorthand.Proofs.DocumentFault
import Shorthand.Proofs.SettingsFault
import Shorthand.Proofs.Retry
import Shorthand.Proofs.DigitRuns
import Shorthand.Proofs.Lexemes
import Shorthand.Proofs.ImpliedSiblings
import Shorthand.Proofs.ClosedItems
import Shorthand.Proofs.Totality
import Shorthand.Proofs.Repetition
import Shorthand.Proofs.OpenTags
import Shorthand.Proofs.Surrounding
import Shorthand.Proofs.Spans
import Shorthand.Proofs.KeptLines
import Shorthand.Proofs.Verbatim
import Shorthand.Proofs.OperatorCount
import Shorthand.Proofs.Attribute
import Shorthand.Proofs.WrittenNode
import Shorthand.Proofs.BlankLines
import Shorthand.Proofs.CommentedLine
import Shorthand.Proofs.NameChain
import Shorthand.Proofs.Resolution
import Shorthand.Proofs.Renumbering
import Shorthand.Proofs.ImpliedTags
import Shorthand.Proofs.DistinctCopies
import Shorthand.Proofs.KeyHash
import Shorthand.Proofs.Collection
import Shorthand.Proofs.NumberedElement
import Shorthand.Proofs.SignedDepth
import Shorthand.Proofs.RunOrder
