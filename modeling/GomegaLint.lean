import GomegaLint.Main
import GomegaLint.Proofs.Descent
import GomegaLint.Proofs.Directive.StatementLists
import GomegaLint.Proofs.EditOrder
import GomegaLint.Proofs.Filtering
import GomegaLint.Proofs.Folding
import GomegaLint.Proofs.Inference.Hygiene
import GomegaLint.Proofs.Inference.Positions
import GomegaLint.Proofs.OperandTypes
import GomegaLint.Proofs.Printing.Fusion
import GomegaLint.Proofs.Printing.Unambiguous
import GomegaLint.Proofs.Qualified.Rules
import GomegaLint.Proofs.Receivers
import GomegaLint.Proofs.Settling
import GomegaLint.Proofs.Directive.Attribution
import GomegaLint.Proofs.Inference.Termination
import GomegaLint.Proofs.Levels
import GomegaLint.Proofs.Syntax.Copies
import GomegaLint.Proofs.Inference.Copies
import GomegaLint.Proofs.Inference.SpelledOut
import GomegaLint.Proofs.Inference.Repetition
import GomegaLint.Proofs.Selection
import GomegaLint.Proofs.OneFix
import GomegaLint.Proofs.Spreading.Rules
import GomegaLint.Proofs.Inference.Fields
import GomegaLint.Proofs.Offsets
import GomegaLint.Proofs.Numerals
import GomegaLint.Proofs.Revisions
import GomegaLint.Proofs.Inference.Arithmetic
import GomegaLint.Proofs.Runes
import GomegaLint.Proofs.Printing.Depth
import GomegaLint.Proofs.Annotations
