import Plc.Command
import Plc.Decimal.Basic
import Plc.Decimal.Display
import Plc.Decimal.Division
import Plc.Diagnostic
import Plc.Expr
import Plc.Literal
import Plc.Machine.Basic
import Plc.Machine.Evaluate
import Plc.Machine.Memory
import Plc.Machine.Run
import Plc.Machine.Session
import Plc.Main
import Plc.Operator
import Plc.Parser.Basic
import Plc.Parser.Expr
import Plc.Parser.Program
import Plc.Program.Basic
import Plc.Program.Error
import Plc.Proofs.Decimal.Power
import Plc.Proofs.Decimal.Rounding
import Plc.Proofs.Display.Decimals
import Plc.Proofs.Display.Escapes
import Plc.Proofs.Display.Expressions
import Plc.Proofs.Display.Literals
import Plc.Proofs.Display.Symbolic
import Plc.Proofs.Display.Unambiguous
import Plc.Proofs.Grammar.Bare
import Plc.Proofs.Grammar.Choices
import Plc.Proofs.Grammar.Exact
import Plc.Proofs.Grammar.Exact.Choices
import Plc.Proofs.Grammar.Exact.Expressions
import Plc.Proofs.Grammar.Exact.Program
import Plc.Proofs.Grammar.Exact.Statements
import Plc.Proofs.Grammar.Expressions
import Plc.Proofs.Grammar.First
import Plc.Proofs.Grammar.Form
import Plc.Proofs.Grammar.Literals
import Plc.Proofs.Grammar.Located
import Plc.Proofs.Grammar.Numbering
import Plc.Proofs.Grammar.Offsets
import Plc.Proofs.Grammar.Operators
import Plc.Proofs.Grammar.Phrase
import Plc.Proofs.Grammar.Program
import Plc.Proofs.Grammar.Reads
import Plc.Proofs.Grammar.Spellings
import Plc.Proofs.Grammar.Spells
import Plc.Proofs.Grammar.Statements
import Plc.Proofs.Grammar.Viable
import Plc.Proofs.Grammar.Wanted
import Plc.Proofs.Isolation.Alike
import Plc.Proofs.Isolation.Calls
import Plc.Proofs.Isolation.Confinement
import Plc.Proofs.Isolation.Mirror
import Plc.Proofs.Lexical.Blocks
import Plc.Proofs.Lexical.Hygiene
import Plc.Proofs.Lexical.Moments
import Plc.Proofs.Lexical.Views
import Plc.Proofs.Lists.Assignment
import Plc.Proofs.Lists.Globals
import Plc.Proofs.Lists.Lengths
import Plc.Proofs.Lists.Program
import Plc.Proofs.Machine.Bounds
import Plc.Proofs.Machine.Change
import Plc.Proofs.Machine.Creation
import Plc.Proofs.Machine.Ensures
import Plc.Proofs.Machine.Frame
import Plc.Proofs.Machine.Links
import Plc.Proofs.Machine.Moment
import Plc.Proofs.Machine.Order
import Plc.Proofs.Machine.Scopes
import Plc.Proofs.Machine.Terms
import Plc.Proofs.Machine.Timeline
import Plc.Proofs.Program.Binders
import Plc.Proofs.Program.Numbers
import Plc.Proofs.Program.Succession
import Plc.Proofs.Scope.Edit
import Plc.Proofs.Scope.History
import Plc.Proofs.Scope.Nearest
import Plc.Proofs.Scope.Tree
import Plc.Proofs.Session.Constants
import Plc.Proofs.Session.Globals
import Plc.Proofs.Session.Rooted
import Plc.Proofs.Soundness.Agreement
import Plc.Proofs.Soundness.Calls
import Plc.Proofs.Soundness.Elements
import Plc.Proofs.Soundness.Expectation
import Plc.Proofs.Soundness.Expressions
import Plc.Proofs.Soundness.Fragment
import Plc.Proofs.Soundness.Hosts
import Plc.Proofs.Soundness.Names
import Plc.Proofs.Soundness.Program
import Plc.Proofs.Soundness.Returns
import Plc.Proofs.Soundness.Statements
import Plc.Proofs.Soundness.Types
import Plc.Proofs.Termination.Finishes
import Plc.Proofs.Termination.Program
import Plc.Proofs.Text.Digits
import Plc.Proofs.Text.Lines
import Plc.Proofs.Text.Report
import Plc.Proofs.Token.Language
import Plc.Proofs.Token.Longest
import Plc.Proofs.Token.Rejection
import Plc.Proofs.Token.Separation
import Plc.Proofs.Token.Spelled
import Plc.Proofs.Token.Tiling
import Plc.Proofs.Token.Values
import Plc.Proofs.Typing.Annotated
import Plc.Proofs.Typing.Calls
import Plc.Proofs.Typing.Context
import Plc.Proofs.Typing.Decided
import Plc.Proofs.Typing.Decides
import Plc.Proofs.Typing.Derivable
import Plc.Proofs.Typing.Derivation
import Plc.Proofs.Typing.Entries
import Plc.Proofs.Typing.Judgement
import Plc.Proofs.Typing.Program
import Plc.Proofs.Typing.Resolution
import Plc.Proofs.Typing.Scopes
import Plc.Proofs.Typing.Sound
import Plc.Proofs.Typing.Unique
import Plc.Proofs.Value.Admits
import Plc.Proofs.Value.Equality
import Plc.Proofs.Value.Refusal
import Plc.Proofs.Value.Scalar
import Plc.Proofs.Value.Table
import Plc.Proofs.Value.Unfolding
import Plc.Scope.Basic
import Plc.Scope.Tree
import Plc.Text.Escape
import Plc.Text.Position
import Plc.Token.Basic
import Plc.Token.Error
import Plc.Token.Scan
import Plc.Ty
import Plc.Typing.Annotations
import Plc.Typing.Check
import Plc.Typing.Context
import Plc.Typing.Error
import Plc.Typing.Rules
import Plc.Value.Basic
import Plc.Value.Error
import Plc.Value.Lists
import Plc.Value.Operation
