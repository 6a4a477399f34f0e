import Reveal.Cascade
import Reveal.Cascade.Index
import Reveal.Cascade.Recursion
import Reveal.Cascade.Walk
import Reveal.Catalog
import Reveal.Chain
import Reveal.Compiler
import Reveal.Document
import Reveal.Dump.Json
import Reveal.Dump.Tree
import Reveal.Dump.Yaml
import Reveal.Event
import Reveal.Fault
import Reveal.Format
import Reveal.Html
import Reveal.Ident.Basic
import Reveal.Ident.Describe
import Reveal.Ident.Order
import Reveal.Journal
import Reveal.LineMap
import Reveal.Name
import Reveal.Number.Digits
import Reveal.Number.Shortest
import Reveal.Options
import Reveal.Position
import Reveal.Profile
import Reveal.Prose
import Reveal.Prose.Escape
import Reveal.Prose.Rule
import Reveal.Prose.Tag
import Reveal.Resolve
import Reveal.Text.Blank
import Reveal.Text.Bytes
import Reveal.Text.Printable
import Reveal.Text.Quoted
import Reveal.Text.Utf8
import Reveal.Token.Basic
import Reveal.Token.Cut
import Reveal.Token.Piece
import Reveal.Yaml.Block
import Reveal.Yaml.Cursor
import Reveal.Yaml.Document
import Reveal.Yaml.Event
import Reveal.Yaml.Expect
import Reveal.Yaml.Plain
import Reveal.Yaml.Property
import Reveal.Yaml.Quoted
import Reveal.Yaml.Refusal
import Reveal.Yaml.Scalar
import Reveal.Yaml.Scanner
import Reveal.Yaml.Style
import Reveal.Yaml.Tag
import Reveal.Yaml.Token
import Reveal.Proofs.Resolve.Step
import Reveal.Proofs.Resolve.Trail
import Reveal.Proofs.Cascade.Walk
import Reveal.Proofs.Cascade.Descendants
import Reveal.Proofs.Cascade.Recursion
import Reveal.Proofs.Token.Cut
import Reveal.Proofs.Token.Piece
import Reveal.Proofs.Token.Source
import Reveal.Proofs.Resolve.Outcome
import Reveal.Proofs.Resolve.Shape
import Reveal.Proofs.Token.Fuse
import Reveal.Proofs.Token.Scan
import Reveal.Proofs.Resolve.Scope
import Reveal.Proofs.Resolve.Fifo
import Reveal.Proofs.Prose.Item
import Reveal.Proofs.Prose.Match
import Reveal.Proofs.Prose.Rewrite
import Reveal.Proofs.Html.Nesting
import Reveal.Proofs.Prose.Nesting
import Reveal.Proofs.Html.Attribute
import Reveal.Proofs.Html.Document
import Reveal.Proofs.Prose.Address
import Reveal.Proofs.Ident.Print
import Reveal.Proofs.LineMap
import Reveal.Proofs.Resolve.Target
import Reveal.Proofs.Token.Span
import Reveal.Proofs.Prose.Scheme
import Reveal.Proofs.Html.Skeleton
import Reveal.Proofs.Token.Local
import Reveal.Proofs.Resolve.Place
import Reveal.Proofs.Dump.Tree
import Reveal.Proofs.Dump.Json
import Reveal.Proofs.Decode
import Reveal.Proofs.Cascade.Preorder
import Reveal.Proofs.Cascade.TargetFirst
import Reveal.Proofs.Cascade.InPlace
import Reveal.Proofs.Resolve.Origin
import Reveal.Proofs.Html.IdList
import Reveal.Proofs.Prose.Entity
import Reveal.Proofs.Prose.Whole
import Reveal.Proofs.Prose.Erase
import Reveal.Proofs.Resolve.Positions
import Reveal.Proofs.Chain
import Reveal.Proofs.Ident.Name
import Reveal.Proofs.Token.Spelling
import Reveal.Proofs.Token.LongestMatch
import Reveal.Proofs.Resolve.State
import Reveal.Proofs.Catalog
import Reveal.Proofs.Compiler
