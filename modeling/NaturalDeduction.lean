import NaturalDeduction.Application
import NaturalDeduction.Bracket
import NaturalDeduction.CommandLine.Options
import NaturalDeduction.CommandLine.Shell
import NaturalDeduction.Document.Basic
import NaturalDeduction.Document.Completion
import NaturalDeduction.Document.Outline
import NaturalDeduction.Document.Selection
import NaturalDeduction.Formula
import NaturalDeduction.Formula.Printer
import NaturalDeduction.Formula.Reader
import NaturalDeduction.Inference.Conjunction
import NaturalDeduction.Inference.Disjunction
import NaturalDeduction.Inference.Engine
import NaturalDeduction.Inference.Equality
import NaturalDeduction.Inference.Implication
import NaturalDeduction.Inference.Negation
import NaturalDeduction.Inference.Quantification
import NaturalDeduction.Inference.Situation
import NaturalDeduction.Inference.Splice
import NaturalDeduction.Inference.Step
import NaturalDeduction.Json
import NaturalDeduction.Main
import NaturalDeduction.Matching
import NaturalDeduction.NameMap
import NaturalDeduction.Operator
import NaturalDeduction.ParseError
import NaturalDeduction.Proofs.Document.Boxes
import NaturalDeduction.Proofs.Document.Coherent
import NaturalDeduction.Proofs.Document.Completion
import NaturalDeduction.Proofs.Document.Edit
import NaturalDeduction.Proofs.Document.Finality
import NaturalDeduction.Proofs.Document.Fixpoint
import NaturalDeduction.Proofs.Document.Frames
import NaturalDeduction.Proofs.Document.Growth
import NaturalDeduction.Proofs.Document.Hypotheses
import NaturalDeduction.Proofs.Document.Items
import NaturalDeduction.Proofs.Document.Layout
import NaturalDeduction.Proofs.Document.Links
import NaturalDeduction.Proofs.Document.Moves
import NaturalDeduction.Proofs.Document.Ordered
import NaturalDeduction.Proofs.Document.Persistence
import NaturalDeduction.Proofs.Document.Rewiring
import NaturalDeduction.Proofs.Document.Roles
import NaturalDeduction.Proofs.Document.Scope
import NaturalDeduction.Proofs.Document.Skolems
import NaturalDeduction.Proofs.Document.Spacing
import NaturalDeduction.Proofs.Document.Splice
import NaturalDeduction.Proofs.Document.Start
import NaturalDeduction.Proofs.Document.Survival
import NaturalDeduction.Proofs.Document.Tree
import NaturalDeduction.Proofs.Document.Visibility
import NaturalDeduction.Proofs.Inference.Answers
import NaturalDeduction.Proofs.Inference.Calculus
import NaturalDeduction.Proofs.Inference.Equality
import NaturalDeduction.Proofs.Inference.Handlers
import NaturalDeduction.Proofs.Inference.Naming
import NaturalDeduction.Proofs.Inference.Questions
import NaturalDeduction.Proofs.Inference.Recording
import NaturalDeduction.Proofs.Inference.Replay
import NaturalDeduction.Proofs.Inference.Run
import NaturalDeduction.Proofs.Inference.Safety
import NaturalDeduction.Proofs.Instantiation
import NaturalDeduction.Proofs.Labels
import NaturalDeduction.Proofs.Matching
import NaturalDeduction.Proofs.NameSupply
import NaturalDeduction.Proofs.Occurrence
import NaturalDeduction.Proofs.Operand
import NaturalDeduction.Proofs.Reading.Acceptance
import NaturalDeduction.Proofs.Reading.Atoms
import NaturalDeduction.Proofs.Reading.Binding
import NaturalDeduction.Proofs.Reading.Extension
import NaturalDeduction.Proofs.Reading.Machine
import NaturalDeduction.Proofs.Reading.Names
import NaturalDeduction.Proofs.Reading.Nesting
import NaturalDeduction.Proofs.Reading.Recording
import NaturalDeduction.Proofs.Reading.Resolution
import NaturalDeduction.Proofs.Reading.RoundTrip
import NaturalDeduction.Proofs.Reading.Scan
import NaturalDeduction.Proofs.Reading.Settling
import NaturalDeduction.Proofs.Reading.TermGrammar
import NaturalDeduction.Proofs.Reading.Terms
import NaturalDeduction.Proofs.Reading.Tokens
import NaturalDeduction.Proofs.Reading.WellFormed
import NaturalDeduction.Proofs.Reassociation
import NaturalDeduction.Proofs.Replacement
import NaturalDeduction.Proofs.Semantics.Calculus
import NaturalDeduction.Proofs.Semantics.Document
import NaturalDeduction.Proofs.Semantics.Handlers
import NaturalDeduction.Proofs.Semantics.Instance
import NaturalDeduction.Proofs.Semantics.Matching
import NaturalDeduction.Proofs.Semantics.Replacement
import NaturalDeduction.Proofs.Semantics.Structure
import NaturalDeduction.Proofs.Session.Atomicity
import NaturalDeduction.Proofs.Session.Completion
import NaturalDeduction.Proofs.Session.Confinement
import NaturalDeduction.Proofs.Session.Coverage
import NaturalDeduction.Proofs.Session.Display
import NaturalDeduction.Proofs.Session.Finality
import NaturalDeduction.Proofs.Session.Freshness
import NaturalDeduction.Proofs.Session.Layout
import NaturalDeduction.Proofs.Session.Numbering
import NaturalDeduction.Proofs.Session.Order
import NaturalDeduction.Proofs.Session.Replay
import NaturalDeduction.Proofs.Session.Run
import NaturalDeduction.Proofs.Session.Safety
import NaturalDeduction.Proofs.Session.Soundness
import NaturalDeduction.Proofs.Signature
import NaturalDeduction.Proofs.Snapshot.Codec
import NaturalDeduction.Proofs.Snapshot.Rows
import NaturalDeduction.Proofs.Snapshot.Text
import NaturalDeduction.Proofs.Substitution
import NaturalDeduction.Reader
import NaturalDeduction.Replacement
import NaturalDeduction.Rule
import NaturalDeduction.RuleError
import NaturalDeduction.Session
import NaturalDeduction.Settings
import NaturalDeduction.Signature
import NaturalDeduction.Snapshot.Basic
import NaturalDeduction.Snapshot.Codec
import NaturalDeduction.Substitution
import NaturalDeduction.Term
import NaturalDeduction.Term.Reader
import NaturalDeduction.Text.Blank
import NaturalDeduction.Text.CaseContext
import NaturalDeduction.Text.ControlSequence
import NaturalDeduction.Text.Lowercase
import NaturalDeduction.Text.Numeral
import NaturalDeduction.Text.Similarity
import NaturalDeduction.Token
