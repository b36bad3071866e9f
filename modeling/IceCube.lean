import IceCube.Main
import IceCube.Registry.Page
import IceCube.Remote
import IceCube.Proofs.Registry.Ownership
import IceCube.Proofs.Registry.Loaded
import IceCube.Proofs.Json.Literal
import IceCube.Proofs.Json.Numeral
import IceCube.Proofs.Number.Text
import IceCube.Proofs.Json.RoundTrip
import IceCube.Proofs.FileTree.Replaced
import IceCube.Proofs.Json.File
import IceCube.Proofs.Cache
import IceCube.Proofs.Registry.Stored
import IceCube.Proofs.Component.Extends
import IceCube.Proofs.Component.Rendering
import IceCube.Proofs.Remote.Handling
import IceCube.Proofs.Remote.Replay
import IceCube.Proofs.Registry.History
import IceCube.Proofs.Path
import IceCube.Proofs.FileTree.Growth
import IceCube.Proofs.Compiler.Compiling
import IceCube.Proofs.Compiler.Outputs
import IceCube.Proofs.Compiler.Artifacts
import IceCube.Proofs.Compiler.Fingerprint
import IceCube.Proofs.Config.Loading
import IceCube.Proofs.Registry.Entries
import IceCube.Proofs.Compiler.Scanning
import IceCube.Proofs.Command.Turns
import IceCube.Proofs.Command.Apart
import IceCube.Proofs.Compiler.Sources
import IceCube.Proofs.Command.Prepared
import IceCube.Proofs.Boot.Since
import IceCube.Proofs.Boot.Agreement
import IceCube.Proofs.Boot.Production
import IceCube.Proofs.Number.Rounding
import IceCube.Proofs.Number.Shortest
import IceCube.Proofs.Remote.Rejection
import IceCube.Proofs.Remote.Constructing
import IceCube.Proofs.Json.Lossless
import IceCube.Proofs.Component.Stateful
import IceCube.Proofs.Markup.StartTag
import IceCube.Proofs.Markup.Recovered
import IceCube.Proofs.Remote.Page
import IceCube.Proofs.Remote.SentBack
import IceCube.Proofs.Component.Twins
import IceCube.Proofs.Remote.Live
import IceCube.Proofs.FileTree.Written
import IceCube.Proofs.Manifest.Laws
import IceCube.Proofs.Manifest.Division
import IceCube.Proofs.Command.Packing
import IceCube.Proofs.Command.Belonging
import IceCube.Proofs.Json.Reading
import IceCube.Proofs.Command.Repacking
import IceCube.Proofs.Command.Delivery
import IceCube.Proofs.Component.Blind
import IceCube.Proofs.Component.Shifted
import IceCube.Proofs.Registry.Defined
import IceCube.Proofs.Boot.Provided
import IceCube.Proofs.Remote.Carrying
import IceCube.Proofs.Remote.Elsewhere
import IceCube.Proofs.Registry.Canonical
import IceCube.Proofs.Text.Search
import IceCube.Proofs.Source.Decomposition
import IceCube.Proofs.Source.Parsing
import IceCube.Proofs.Source.Separation
import IceCube.Proofs.Schema.Pattern
import IceCube.Proofs.Schema.Valid
import IceCube.Proofs.Schema.Described
import IceCube.Proofs.Schema.Agreement
import IceCube.Proofs.Registry.Inlined
import IceCube.Proofs.Registry.Contained
import IceCube.Proofs.Registry.Bootstrap
import IceCube.Proofs.Boot.Shares
import IceCube.Proofs.Registry.Pages
import IceCube.Proofs.Boot.Order
import IceCube.Proofs.Registry.Loaded
import IceCube.Proofs.Script.Template
import IceCube.Proofs.Script.Ending
import IceCube.Proofs.Script.Guard
import IceCube.Proofs.Stylesheet.Containment
import IceCube.Proofs.Stylesheet.Prefixed
import IceCube.Proofs.Markup.Reader
import IceCube.Proofs.Compiler.Rejected
import IceCube.Proofs.Compiler.Rescan
import IceCube.Proofs.Remote.Escaping
import IceCube.Proofs.Compiler.Locating
import IceCube.Proofs.Compiler.Recompiling
import IceCube.Proofs.Config.Valid
import IceCube.Proofs.Registry.NotFound
import IceCube.Proofs.FileTree.Atomic
import IceCube.Proofs.Command.Aborted
import IceCube.Proofs.Compiler.Colocated
import IceCube.Proofs.Yaml.Failing
import IceCube.Proofs.Command.Unloadable
