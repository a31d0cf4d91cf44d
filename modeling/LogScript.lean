import LogScript.Main
import LogScript.Editing.Editor
import LogScript.Vocabulary.Reader
import LogScript.Proofs.Editing.Session
import LogScript.Proofs.Highlight.ByteRuns
import LogScript.Proofs.Highlight.ByteClassifiers
import LogScript.Proofs.Highlight.Cover
import LogScript.Proofs.Layout.BodyLines
import LogScript.Proofs.Layout.BodyRelaid
import LogScript.Proofs.Layout.OmlCharacters
import LogScript.Proofs.Layout.OmlCode
import LogScript.Proofs.Layout.OmlStable
import LogScript.Proofs.Layout.WplCode
import LogScript.Proofs.Layout.WplStable
import LogScript.Proofs.Layout.WplVisible
import LogScript.Proofs.Editing.Snapshots
import LogScript.Proofs.Editing.Failure
import LogScript.Proofs.Editing.Typing
import LogScript.Proofs.Highlight.StateBehind
import LogScript.Proofs.Completion.LeftmostMatch
import LogScript.Proofs.Highlight.DecoratedNames
import LogScript.Proofs.Highlight.JsonLexemes
import LogScript.Proofs.Highlight.LineBreaks
import LogScript.Proofs.Completion.SnippetReading
import LogScript.Proofs.Editing.Notices
import LogScript.Proofs.Editing.Rebuilt
import LogScript.Proofs.Editing.Narrowing
import LogScript.Proofs.Editing.Accepting
import LogScript.Proofs.Editing.BehindBar
import LogScript.Proofs.Layout.Literals
import LogScript.Proofs.Layout.SqueezedLiterals
import LogScript.Proofs.Layout.UndisturbedLiterals
import LogScript.Proofs.Layout.SplitLiterals
import LogScript.Proofs.Layout.WplLiterals
import LogScript.Proofs.Layout.Fragments
import LogScript.Proofs.Layout.OmlFragments
import LogScript.Proofs.Completion.Narrowed
import LogScript.Proofs.Completion.Priority
import LogScript.Proofs.Layout.NestedArguments
import LogScript.Proofs.Layout.BraceLevel
import LogScript.Proofs.Layout.OmlShape
import LogScript.Proofs.Completion.SortTexts
import LogScript.Proofs.Completion.PlacedStops
import LogScript.Proofs.Activity.Summaries
import LogScript.Proofs.Activity.LatestSamples
import LogScript.Proofs.Layout.LiteralEnds
