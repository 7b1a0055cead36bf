import HelpMiner.Contents.Document
import HelpMiner.Main
import HelpMiner.Proofs.Override.Amend
import HelpMiner.Proofs.Markup.Lexical
import HelpMiner.Proofs.Page.Outline
import HelpMiner.Proofs.Page.Streaming
import HelpMiner.Proofs.Markup.Canonical
import HelpMiner.Proofs.Signature.Spelling
import HelpMiner.Proofs.Signature.LetterCase
import HelpMiner.Proofs.Signature.TypeName
import HelpMiner.Proofs.Signature.Connector
import HelpMiner.Proofs.Signature.Normal
import HelpMiner.Proofs.Signature.Declaration
import HelpMiner.Proofs.Signature.Block
import HelpMiner.Proofs.Stub.Layout
import HelpMiner.Proofs.Table.Ordered
import HelpMiner.Proofs.Table.Sorted
import HelpMiner.Proofs.Page.Normal
import HelpMiner.Proofs.Page.Extraction
import HelpMiner.Proofs.Document.Json.Lossless
import HelpMiner.Proofs.Document.Kept
import HelpMiner.Proofs.Document.Lossless
import HelpMiner.Proofs.Command.Issue
import HelpMiner.Proofs.Signature.Reading
import HelpMiner.Proofs.Signature.Inference
import HelpMiner.Proofs.Signature.WellFormed
import HelpMiner.Proofs.Signature.NameLimit
import HelpMiner.Proofs.Build.Draft
import HelpMiner.Proofs.Build.Redaction
import HelpMiner.Proofs.Build.Refusal
import HelpMiner.Proofs.Build.Account
import HelpMiner.Proofs.Files.Action
import HelpMiner.Proofs.Files.Path
import HelpMiner.Proofs.Files.Tree
import HelpMiner.Proofs.Files.Change
import HelpMiner.Proofs.Files.Writing
import HelpMiner.Proofs.Stub.Directory
import HelpMiner.Proofs.Signature.HostType
import HelpMiner.Proofs.Contents.Reading
import HelpMiner.Proofs.Markup.RawBody
import HelpMiner.Proofs.Markup.Cutting
import HelpMiner.Proofs.Page.SelfClosed
import HelpMiner.Proofs.Signature.BareName
import HelpMiner.Proofs.Files.Parent
import HelpMiner.Proofs.Stub.Place
import HelpMiner.Proofs.Signature.Link
import HelpMiner.Proofs.Signature.Unqualified
import HelpMiner.Proofs.Signature.Unified
import HelpMiner.Proofs.Signature.Canonical
import HelpMiner.Proofs.Page.BlankLine
import HelpMiner.Proofs.Page.ListLine
import HelpMiner.Proofs.Page.NormalForm
import HelpMiner.Proofs.Text.Wrap
import HelpMiner.Proofs.Markup.Encoding
import HelpMiner.Proofs.Contents.Index
import HelpMiner.Proofs.Override.Compose
import HelpMiner.Proofs.Archive.Argument
import HelpMiner.Proofs.Command.Validity
import HelpMiner.Proofs.Signature.Account
import HelpMiner.Proofs.Text.Replace
import HelpMiner.Proofs.Build.Artifacts
import HelpMiner.Proofs.Archive.Newest
import HelpMiner.Proofs.Archive.Roots
import HelpMiner.Proofs.Files.Target
import HelpMiner.Proofs.Files.Room
import HelpMiner.Proofs.Stub.History
import HelpMiner.Proofs.Render.Topic
import HelpMiner.Command.Operation
import HelpMiner.Proofs.Table.Insertion
import HelpMiner.Proofs.Page.Keeping
import HelpMiner.Proofs.Command.Session
