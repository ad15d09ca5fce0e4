import ViewTree.Files.Tree
import ViewTree.Main
import ViewTree.Node.Equality
import ViewTree.Proofs.Compile.Classes
import ViewTree.Proofs.Compile.Files
import ViewTree.Proofs.Compile.Imports
import ViewTree.Proofs.Compile.Isolation
import ViewTree.Proofs.Compile.Links
import ViewTree.Proofs.Component.Declarations
import ViewTree.Proofs.Component.Scripts
import ViewTree.Proofs.Load.WellFormed
import ViewTree.Proofs.Markup.Verbatim
import ViewTree.Proofs.Restyle.SheetOnly
import ViewTree.Proofs.Compile.Fingerprint
import ViewTree.Proofs.Cache.Entries
import ViewTree.Proofs.Cache.Transparent
import ViewTree.Proofs.Compile.Places
import ViewTree.Proofs.CommandLine.Outputs
import ViewTree.Proofs.Compile.Below
import ViewTree.Proofs.Compile.Captures
import ViewTree.Proofs.Compile.Platforms
import ViewTree.Proofs.Json.OneLine
import ViewTree.Proofs.Markup.AttributeOrder
import ViewTree.Proofs.Markup.Literals
import ViewTree.Proofs.Markup.StyleScripts
import ViewTree.Proofs.Markup.ClassTexts
import ViewTree.Proofs.Pattern.Reading
import ViewTree.Proofs.Pattern.RoundTrip
import ViewTree.Proofs.Style.Merge
import ViewTree.Proofs.Component.Redeclarations
import ViewTree.Proofs.Names.Contexts
import ViewTree.Proofs.Names.Kept
import ViewTree.Proofs.Names.Selectors
import ViewTree.Proofs.Compile.StyleHelpers
import ViewTree.Proofs.Markup.TextLayout
import ViewTree.Proofs.Load.References
import ViewTree.Proofs.Compile.ComponentTags
import ViewTree.Proofs.Compile.Sections
import ViewTree.Proofs.Names.Repeated
import ViewTree.Proofs.Load.Problems
import ViewTree.Proofs.Text.Blocks
import ViewTree.Proofs.Text.Cleaning
import ViewTree.Proofs.Names.Calls
