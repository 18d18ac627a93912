import ConfigTree.Binary.Basic
import ConfigTree.Binary.Double
import ConfigTree.Config.Basic
import ConfigTree.Config.Query
import ConfigTree.Decimal.Digits
import ConfigTree.Decimal.Numeral
import ConfigTree.Decimal.Shortest
import ConfigTree.Decimal.Style
import ConfigTree.Decode
import ConfigTree.Entries
import ConfigTree.Error
import ConfigTree.FileName
import ConfigTree.Files
import ConfigTree.Format
import ConfigTree.Json.Basic
import ConfigTree.Json.Lexeme
import ConfigTree.Json.Numeral
import ConfigTree.Json.Offer
import ConfigTree.Json.Parse
import ConfigTree.Json.Print
import ConfigTree.Numeric
import ConfigTree.Path.Segment
import ConfigTree.Path.Token
import ConfigTree.Path.Walk
import ConfigTree.Presence
import ConfigTree.Proofs.Binary.Code
import ConfigTree.Proofs.Binary.Exact
import ConfigTree.Proofs.Binary.Integer
import ConfigTree.Proofs.Binary.Magnitude
import ConfigTree.Proofs.Binary.Nearest
import ConfigTree.Proofs.Binary.Rounding
import ConfigTree.Proofs.Config.Accessors
import ConfigTree.Proofs.Config.Failure
import ConfigTree.Proofs.Config.Home
import ConfigTree.Proofs.Config.Items
import ConfigTree.Proofs.Config.KeyOrder
import ConfigTree.Proofs.Config.Lookup
import ConfigTree.Proofs.Config.Session
import ConfigTree.Proofs.Config.Sources
import ConfigTree.Proofs.Decimal.Digits
import ConfigTree.Proofs.Decimal.Grammar
import ConfigTree.Proofs.Decimal.Numeral
import ConfigTree.Proofs.Decimal.Spelling
import ConfigTree.Proofs.Entries.Lookup
import ConfigTree.Proofs.Entries.Tabulate
import ConfigTree.Proofs.Json.Exchange
import ConfigTree.Proofs.Json.Integer
import ConfigTree.Proofs.Json.Lexeme
import ConfigTree.Proofs.Json.RoundTrip
import ConfigTree.Proofs.Path.Address
import ConfigTree.Proofs.Path.Append
import ConfigTree.Proofs.Path.Content
import ConfigTree.Proofs.Path.Difference
import ConfigTree.Proofs.Path.Indices
import ConfigTree.Proofs.Path.Placeholders
import ConfigTree.Proofs.Path.Position
import ConfigTree.Proofs.Path.Segment
import ConfigTree.Proofs.Path.Spelling
import ConfigTree.Proofs.Path.Texts
import ConfigTree.Proofs.Text.Classes
import ConfigTree.Proofs.Tree.Classification
import ConfigTree.Proofs.Tree.Equality
import ConfigTree.Proofs.Tree.ExactInteger
import ConfigTree.Proofs.Tree.Inference
import ConfigTree.Proofs.Tree.IntegerText
import ConfigTree.Proofs.Tree.Shape
import ConfigTree.Proofs.Tree.UniqueKeys
import ConfigTree.Proofs.Xml.Attributes
import ConfigTree.Proofs.Xml.Grouping
import ConfigTree.Proofs.Xml.Meaning
import ConfigTree.Proofs.Xml.Reference
import ConfigTree.Proofs.Xml.Shape
import ConfigTree.Proofs.Xml.Site
import ConfigTree.Proofs.Yaml.Conversion
import ConfigTree.Properties.Entry
import ConfigTree.Properties.Line
import ConfigTree.Readable
import ConfigTree.Text
import ConfigTree.Tree.Basic
import ConfigTree.Tree.Display
import ConfigTree.Tree.Equality
import ConfigTree.Tree.Infer
import ConfigTree.Xml.Document
import ConfigTree.Xml.Event
import ConfigTree.Xml.Frame
import ConfigTree.Xml.Reference
import ConfigTree.Yaml.Basic
import ConfigTree.Yaml.BlockText
import ConfigTree.Yaml.Cursor
import ConfigTree.Yaml.Directive
import ConfigTree.Yaml.Document
import ConfigTree.Yaml.Grammar
import ConfigTree.Yaml.Layout
import ConfigTree.Yaml.Literal
import ConfigTree.Yaml.Node
import ConfigTree.Yaml.PlainText
import ConfigTree.Yaml.QuotedText
import ConfigTree.Yaml.Tag
import ConfigTree.Yaml.TagText
import ConfigTree.Yaml.Token
import ConfigTree.Yaml.Tokens
import ConfigTree.Yaml.Tree
