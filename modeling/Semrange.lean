import Semrange.Text.Blank
import Semrange.Text.Cut
import Semrange.Text.DecimalDigit
import Semrange.Text.Printable
import Semrange.Text.Quoted
import Semrange.Text.Uppercase
import Semrange.Numeral
import Semrange.Document.Loading
import Semrange.Document.Printer
import Semrange.Document.Reader
import Semrange.Version.Basic
import Semrange.Version.Fields
import Semrange.Version.Order
import Semrange.Version.Parser
import Semrange.Interval.Complement
import Semrange.Predicate.Parser
import Semrange.Document.Json
import Semrange.Version.Comparison
import Semrange.Dependency
import Semrange.Overrides
import Semrange.Cache
import Semrange.Log.Console
import Semrange.Log.Reading
import Semrange.Manifest
import Semrange.Check
import Semrange.Settings
import Semrange.CommandLine.Grammar
import Semrange.CommandLine.Run
import Semrange.Main
import Semrange.Proofs.Version.Rank
import Semrange.Proofs.Version.Preorder
import Semrange.Proofs.Text.Pieces
import Semrange.Proofs.Version.Grammar
import Semrange.Proofs.Version.RoundTrip
import Semrange.Proofs.Interval.Cut
import Semrange.Proofs.Interval.Extent
import Semrange.Proofs.Interval.Insertion
import Semrange.Proofs.Interval.Union
import Semrange.Proofs.Interval.Intersection
import Semrange.Proofs.Interval.Complement
import Semrange.Proofs.Interval.Membership
import Semrange.Proofs.Predicate.Bounds
import Semrange.Proofs.Predicate.Reading
import Semrange.Proofs.Predicate.RoundTrip
import Semrange.Proofs.Predicate.Agreement
import Semrange.Proofs.Interval.Mixture
import Semrange.Proofs.Interval.Labels
import Semrange.Proofs.Interval.Settled
import Semrange.Proofs.Interval.Exclusion
import Semrange.Proofs.Dependency.Allowance
import Semrange.Proofs.Interval.Uniqueness
import Semrange.Proofs.Interval.ComplementLaws
import Semrange.Interval.Checked
import Semrange.Proofs.Interval.Guards
import Semrange.Proofs.Interval.Merging
import Semrange.Proofs.Interval.Safety
import Semrange.Proofs.Predicate.Lines
import Semrange.Proofs.Predicate.Wildcards
import Semrange.Proofs.Cache.Faithful
import Semrange.Proofs.Cache.History
import Semrange.Proofs.Cache.Retention
import Semrange.Proofs.Log.Reports
import Semrange.Proofs.Manifest.Failures
import Semrange.Proofs.CommandLine.Ranges
import Semrange.Proofs.CommandLine.Checking
import Semrange.Proofs.CommandLine.Configuration
import Semrange.Proofs.Version.Identity
import Semrange.Proofs.Predicate.Identity
import Semrange.Proofs.Dependency.Identity
import Semrange.Proofs.Interval.Semilattice
import Semrange.Proofs.Predicate.Composition
import Semrange.Proofs.Version.Precedence
import Semrange.Proofs.Interval.Coverage
import Semrange.Proofs.Check.Findings
import Semrange.Proofs.CommandLine.Verdict
import Semrange.Proofs.Overrides.Replacements
import Semrange.Proofs.Overrides.Reading
import Semrange.Proofs.Check.Locality
import Semrange.Proofs.Manifest.Declarations
import Semrange.Proofs.Settings.Precedence
import Semrange.Proofs.Interval.EndOrder
