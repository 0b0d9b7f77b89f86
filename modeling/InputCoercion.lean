import InputCoercion.Response
import InputCoercion.Scalar.Custom
import InputCoercion.Schema.Validation
import InputCoercion.Session
import InputCoercion.Proofs.Schema.Closure
import InputCoercion.Proofs.Fields
import InputCoercion.Proofs.Value.Recursion
import InputCoercion.Proofs.Value.Conformance
import InputCoercion.Proofs.Value.Faults
import InputCoercion.Proofs.Value.Reporting
import InputCoercion.Proofs.Literal.Recursion
import InputCoercion.Proofs.Literal.Agreement
import InputCoercion.Proofs.Literal.Variables
import InputCoercion.Proofs.Schema.Cycles
import InputCoercion.Proofs.Schema.WellFormed
import InputCoercion.Proofs.Value.Positions
import InputCoercion.Proofs.Safety
import InputCoercion.Proofs.FixedPoints
import InputCoercion.Proofs.Satisfiability
import InputCoercion.Proofs.Unions
import InputCoercion.Proofs.Evolution
import InputCoercion.Proofs.Value.Blame
import InputCoercion.Proofs.Value.KeyOrder
import InputCoercion.Proofs.Reachability
import InputCoercion.Proofs.Suggestion.Distance
import InputCoercion.Proofs.Literal.Conversion
import InputCoercion.Proofs.Literal.Repeats
import InputCoercion.Proofs.Literal.Untyped
import InputCoercion.Proofs.Number.Range
import InputCoercion.Proofs.Number.Grammar
import InputCoercion.Proofs.Literal.Numeral
import InputCoercion.Proofs.Literal.Parts
import InputCoercion.Proofs.Literal.Irrelevance
import InputCoercion.Proofs.Suggestion.Ranking
import InputCoercion.Proofs.Schema.History
import InputCoercion.Proofs.Source
import InputCoercion.Proofs.Number.Integer
import InputCoercion.Proofs.Lines
import InputCoercion.Proofs.Value.Messages
import InputCoercion.Proofs.Name
import InputCoercion.Proofs.InputType
import InputCoercion.Proofs.Path
import InputCoercion.Proofs.FirstFailure
