import Pagesmith.Bundle
import Pagesmith.Catalogue.Basic
import Pagesmith.Catalogue.Default
import Pagesmith.Catalogue.Rendering
import Pagesmith.Command.Grammar
import Pagesmith.Command.Line
import Pagesmith.Command.Listing
import Pagesmith.Command.Reply
import Pagesmith.Command.Request
import Pagesmith.Command.Run
import Pagesmith.Component.Element
import Pagesmith.Component.Handler
import Pagesmith.Component.Hooks
import Pagesmith.Component.Styles
import Pagesmith.Deflate.Block
import Pagesmith.Deflate.Code
import Pagesmith.Deflate.Search
import Pagesmith.Delivery.Archive
import Pagesmith.Delivery.Disk
import Pagesmith.Delivery.Errand
import Pagesmith.Delivery.Path
import Pagesmith.Delivery.Publish
import Pagesmith.Delivery.Zip
import Pagesmith.Export
import Pagesmith.Fault
import Pagesmith.File
import Pagesmith.Format.File
import Pagesmith.Format.Text
import Pagesmith.Job
import Pagesmith.Lifting.Basic
import Pagesmith.Main
import Pagesmith.Markup.Basic
import Pagesmith.Markup.Layout
import Pagesmith.Module.Basic
import Pagesmith.Module.Text
import Pagesmith.Notice
import Pagesmith.Number.Binary64
import Pagesmith.Number.Shortest
import Pagesmith.Page.Dependency
import Pagesmith.Page.Describe
import Pagesmith.Page.Node
import Pagesmith.Page.Sheet
import Pagesmith.Page.Walk
import Pagesmith.Reading.Node
import Pagesmith.Reading.Page
import Pagesmith.Reading.Prop
import Pagesmith.Scaffold.Fixed
import Pagesmith.Scaffold.Manifest
import Pagesmith.Scaffold.Route
import Pagesmith.Scaffold.Step
import Pagesmith.Scaffold.Template
import Pagesmith.Scaffold.Varying
import Pagesmith.Schema
import Pagesmith.Script.Literal
import Pagesmith.Script.Statement
import Pagesmith.Settings
import Pagesmith.Stack.Basic
import Pagesmith.Stack.Default
import Pagesmith.Table
import Pagesmith.Text.Blank
import Pagesmith.Text.Copies
import Pagesmith.Text.Digit
import Pagesmith.Text.Name
import Pagesmith.Text.Part
import Pagesmith.Text.Printable
import Pagesmith.Text.Quoted
import Pagesmith.Text.Upper
import Pagesmith.Text.Utf8
import Pagesmith.Toml.Document
import Pagesmith.Toml.Moment
import Pagesmith.Toml.Namespace
import Pagesmith.Toml.Stop
import Pagesmith.Toml.Text
import Pagesmith.Value.Basic
import Pagesmith.Value.Copy
import Pagesmith.Value.Json
import Pagesmith.Value.Whole
import Pagesmith.Value.Nesting
import Pagesmith.Value.Weight
import Pagesmith.Value.Reader
import Pagesmith.Value.Text
import Pagesmith.Proofs.Value.Grammar
import Pagesmith.Proofs.Text.Character
import Pagesmith.Proofs.Value.Json
import Pagesmith.Proofs.Catalogue.Written
import Pagesmith.Proofs.Component.Bindings
import Pagesmith.Proofs.Component.Calls
import Pagesmith.Proofs.Component.Classes
import Pagesmith.Proofs.Component.Elements
import Pagesmith.Proofs.Component.Shared
import Pagesmith.Proofs.Component.Unbroken
import Pagesmith.Proofs.Export.Files
import Pagesmith.Proofs.Module.Edits
import Pagesmith.Proofs.Lifting.Actions
import Pagesmith.Proofs.Lifting.Closed
import Pagesmith.Proofs.Lifting.Complete
import Pagesmith.Proofs.Page.Place
import Pagesmith.Proofs.Reading.Layer
import Pagesmith.Proofs.Reading.Mirror
import Pagesmith.Proofs.Reading.Plain
import Pagesmith.Proofs.Reading.Ways
import Pagesmith.Proofs.Reading.Identifiers
import Pagesmith.Proofs.Scaffold.Step
import Pagesmith.Proofs.Export.Generation
import Pagesmith.Proofs.Module.Sources
import Pagesmith.Proofs.Component.Sources
import Pagesmith.Proofs.Reading.Below
import Pagesmith.Proofs.Export.Closed
import Pagesmith.Proofs.Markup.Angles
import Pagesmith.Proofs.Component.Unmarked
import Pagesmith.Proofs.Component.Tags
import Pagesmith.Proofs.Export.Tags
import Pagesmith.Proofs.Component.Styled
import Pagesmith.Proofs.Module.Declared
import Pagesmith.Proofs.Export.Declared
import Pagesmith.Proofs.Markup.Braces
import Pagesmith.Proofs.Markup.Width
import Pagesmith.Proofs.Reading.Verbatim
import Pagesmith.Proofs.Markup.Tag
import Pagesmith.Proofs.Component.Attributes
import Pagesmith.Proofs.Component.ClassName
import Pagesmith.Proofs.Catalogue.Packages
import Pagesmith.Proofs.Lifting.Became
import Pagesmith.Proofs.Lifting.Changes
import Pagesmith.Proofs.Lifting.Frame
import Pagesmith.Proofs.Lifting.Functions
import Pagesmith.Proofs.Lifting.Wired
import Pagesmith.Proofs.Lifting.Served
import Pagesmith.Proofs.Component.Slots
import Pagesmith.Proofs.Component.Imported
import Pagesmith.Proofs.Component.Rendered
import Pagesmith.Proofs.Component.Handlers
import Pagesmith.Proofs.Component.Identifiers
import Pagesmith.Proofs.Format.Normal
import Pagesmith.Proofs.Reading.Dependencies
import Pagesmith.Proofs.Schema
import Pagesmith.Proofs.Settings
import Pagesmith.Proofs.Delivery.Disk
import Pagesmith.Proofs.Delivery.Rejected
