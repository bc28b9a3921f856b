import BraceTemplate.Main
import BraceTemplate.Report
import BraceTemplate.Tree.Path
import BraceTemplate.Proofs.Builder.Answered
import BraceTemplate.Proofs.Builder.Refusing
import BraceTemplate.Proofs.Parse.Aligned
import BraceTemplate.Proofs.Parse.Appended
import BraceTemplate.Proofs.Parse.Argued
import BraceTemplate.Proofs.Parse.Branched
import BraceTemplate.Proofs.Parse.Called
import BraceTemplate.Proofs.Parse.Chosen
import BraceTemplate.Proofs.Parse.Diagnosed
import BraceTemplate.Proofs.Parse.Lossless
import BraceTemplate.Proofs.Parse.Ordered
import BraceTemplate.Proofs.Parse.Outlined
import BraceTemplate.Proofs.Parse.Phased
import BraceTemplate.Proofs.Parse.Printed
import BraceTemplate.Proofs.Parse.Progressing
import BraceTemplate.Proofs.Parse.Repaired
import BraceTemplate.Proofs.Parse.Reported
import BraceTemplate.Proofs.Parse.Shaped
import BraceTemplate.Proofs.Parse.Trimmed
import BraceTemplate.Proofs.Parse.Woven
import BraceTemplate.Proofs.Symbol.Answered
import BraceTemplate.Proofs.Symbol.CommentExtent
import BraceTemplate.Proofs.Symbol.Escaping
import BraceTemplate.Proofs.Symbol.Grammar
import BraceTemplate.Proofs.Symbol.Modal
import BraceTemplate.Proofs.Symbol.Progress
import BraceTemplate.Proofs.Text.Lines
import BraceTemplate.Proofs.Text.Quoting
