import TreeCompare.Main
import TreeCompare.Proofs.Joining.Join
import TreeCompare.Proofs.Pairing.Conservation
import TreeCompare.Proofs.Joining.Outer
import TreeCompare.Proofs.Joining.Groups
import TreeCompare.Proofs.Pairing.Alignment
import TreeCompare.Proofs.Pairing.Course
import TreeCompare.Proofs.Pairing.Failure
import TreeCompare.Proofs.Operations.Laws
import TreeCompare.Proofs.Pairing.Collated
import TreeCompare.Proofs.Joining.OutOfStep
import TreeCompare.Proofs.Operations.Reading
import TreeCompare.Proofs.Pairing.LostStep
import TreeCompare.Proofs.Pairing.NameByName
import TreeCompare.Proofs.Trees.Merges
import TreeCompare.Proofs.Trees.Listing
import TreeCompare.Proofs.Trees.Together
import TreeCompare.Proofs.Operations.StartFilter
import TreeCompare.Proofs.Trees.StartName
import TreeCompare.Proofs.Trees.Severity
import TreeCompare.Proofs.Trees.Reports
import TreeCompare.Proofs.Trees.Levels
import TreeCompare.Proofs.Trees.Reachable
import TreeCompare.Proofs.Trees.Nesting
import TreeCompare.Proofs.Operations.SameContents
import TreeCompare.Proofs.Pairing.CaseSensitive
import TreeCompare.Proofs.Trees.Equality
import TreeCompare.Proofs.Trees.Verdict
import TreeCompare.Proofs.Ordering.Fallback
import TreeCompare.Proofs.Trees.Fallback
import TreeCompare.Proofs.Ordering.ByName
import TreeCompare.Proofs.Pairing.Turned
import TreeCompare.Proofs.Operations.Alike
import TreeCompare.Proofs.Operations.Offers
import TreeCompare.Proofs.Trees.Turned
import TreeCompare.Proofs.Trees.Enumeration
import TreeCompare.Proofs.Trees.Mirror
import TreeCompare.Proofs.Trees.Plain
import TreeCompare.Proofs.Trees.FilledIn
import TreeCompare.Proofs.Trees.NewFile
import TreeCompare.Proofs.Pairing.Twins
import TreeCompare.Proofs.Trees.Itself
import TreeCompare.Proofs.Operations.Failures
import TreeCompare.Proofs.Trees.Blame
import TreeCompare.Proofs.Trees.Chains
import TreeCompare.Proofs.Trees.InOrder
import TreeCompare.Proofs.Ordering.Unread
import TreeCompare.Proofs.Pairing.Unread
import TreeCompare.Proofs.Trees.Unread
import TreeCompare.Proofs.Program.OutputModes
import TreeCompare.Proofs.Operations.Blocks
import TreeCompare.Proofs.Ordering.Stable
import TreeCompare.Proofs.Pairing.Cut
import TreeCompare.Proofs.Operations.KeyedReading
import TreeCompare.Proofs.Trees.Suffix
import TreeCompare.Proofs.Text.Utf8
import TreeCompare.Proofs.Toml.Quoted
import TreeCompare.Proofs.Toml.Document
import TreeCompare.Proofs.Settings.RoundTrip
import TreeCompare.Proofs.Text.Paths
import TreeCompare.Proofs.Trees.Resolution
import TreeCompare.Proofs.Trees.Entering
import TreeCompare.Proofs.Trees.Parents
import TreeCompare.Proofs.Trees.Writing
import TreeCompare.Proofs.Settings.Saved
import TreeCompare.Proofs.Text.Spelling
import TreeCompare.Proofs.Text.ScalarOrder
import TreeCompare.Proofs.Operations.Opened
import TreeCompare.Proofs.Operations.Meaning
import TreeCompare.Proofs.Ordering.Rearranged
import TreeCompare.Proofs.Pairing.Favoured
import TreeCompare.Proofs.Exclusion.OneMoreLine
