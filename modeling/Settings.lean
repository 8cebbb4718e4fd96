import Settings.Binding.Catalogue
import Settings.Binding.Member
import Settings.Channel
import Settings.Cli
import Settings.Demo
import Settings.Entry
import Settings.Error
import Settings.Function
import Settings.Handle
import Settings.Host.Integer
import Settings.Host.Object
import Settings.Host.Store
import Settings.Host.Type
import Settings.Inspect
import Settings.Kind
import Settings.Listing
import Settings.Main
import Settings.NameIndex
import Settings.Number.Arith
import Settings.Number.Bits
import Settings.Number.Format
import Settings.Number.Round
import Settings.Number.Shortest
import Settings.Number.Text
import Settings.Scalar
import Settings.Script
import Settings.Session.Basic
import Settings.Session.Invoke
import Settings.Stock.Accessors
import Settings.Stock.Functions
import Settings.Stock.Types
import Settings.Table.Basic
import Settings.Table.Edit
import Settings.Table.Lookup
import Settings.Table.Tree
import Settings.Table.Values
import Settings.Text.Blank
import Settings.Text.Numeral
import Settings.Text.Path
import Settings.Text.Quoted
import Settings.Text.Sink
import Settings.Text.Unseen
import Settings.Proofs.Table.Run
import Settings.Proofs.Table.Owners
import Settings.Proofs.Table.Sound
import Settings.Proofs.Table.Moves
import Settings.Proofs.Table.Trees
import Settings.Proofs.Table.Edits
import Settings.Proofs.Table.Values
import Settings.Proofs.Table.Copies
import Settings.Proofs.Session.Requests
import Settings.Proofs.Session.Runs
import Settings.Proofs.Session.Refusals
import Settings.Proofs.Session.Clones
import Settings.Proofs.Session.Paths
import Settings.Proofs.Table.Temporaries
import Settings.Proofs.Table.Shapes
import Settings.Proofs.Session.Calls
import Settings.Proofs.Session.ScriptCalls
import Settings.Proofs.Session.Restoring
import Settings.Proofs.Number.Rounding
import Settings.Proofs.Number.Numerals
import Settings.Proofs.Host.Texts
import Settings.Proofs.Host.Variables
import Settings.Proofs.Listing.Reading
import Settings.Proofs.Listing.Contents
import Settings.Proofs.Table.Faultless
import Settings.Proofs.Session.CallTrees
import Settings.Proofs.Session.LiveHandles
import Settings.Proofs.Session.ScriptHandles
import Settings.Proofs.Table.Growth
import Settings.Proofs.Session.Instances
import Settings.Proofs.Table.Walks
import Settings.Proofs.Number.WholeNumbers
import Settings.Proofs.Session.IntegerResults
import Settings.Proofs.Number.WholeTexts
import Settings.Proofs.Host.Footprints
import Settings.Proofs.Listing.Alike
import Settings.Proofs.Session.Builtins
import Settings.Proofs.Session.Isolation
import Settings.Proofs.Session.RecordedDefaults
import Settings.Proofs.Binding.Catalogues
import Settings.Proofs.Host.Locality
import Settings.Proofs.Session.Deeds
import Settings.Proofs.Session.Interference
import Settings.Proofs.Number.Values
import Settings.Proofs.Number.Nearest
import Settings.Proofs.Number.IntegerTexts
import Settings.Proofs.Host.Arguments
import Settings.Proofs.Table.Quantities
import Settings.Proofs.Session.IntegerArguments
import Settings.Proofs.Session.ValueCopies
import Settings.Proofs.Session.Validation
import Settings.Proofs.Session.Ways
import Settings.Proofs.Session.Removal
import Settings.Proofs.Session.Attachment
import Settings.Proofs.Session.Renaming
import Settings.Proofs.Session.Scoping
import Settings.Proofs.Host.AssignedTexts
import Settings.Proofs.Number.RoundingTwice
import Settings.Proofs.Host.PassedTexts
import Settings.Proofs.Session.TextWrites
import Settings.Proofs.Listing.Live
import Settings.Proofs.Session.Operating
import Settings.Proofs.Cli.Options
import Settings.Proofs.Cli.Example
import Settings.Proofs.Listing.Recording
import Settings.Proofs.Listing.Order
import Settings.Proofs.Listing.Writing
import Settings.Proofs.Listing.Columns
import Settings.Proofs.Table.Moments
import Settings.Proofs.Session.History
import Settings.Proofs.Session.KnownHandles
import Settings.Proofs.Session.Recycling
