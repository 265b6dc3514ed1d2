import Eleu.Main
import Eleu.Session
import Eleu.Proofs.Agreement.FieldOrder
import Eleu.Proofs.Cancellation
import Eleu.Proofs.Chains
import Eleu.Proofs.Classes.Reopening
import Eleu.Proofs.Classes.Super
import Eleu.Proofs.Code.Static
import Eleu.Proofs.Isolation.Sessions
import Eleu.Proofs.Library.Strings
import Eleu.Proofs.Locals
import Eleu.Proofs.Located
import Eleu.Proofs.Machine.Stepping
import Eleu.Proofs.Machine.Unwind
import Eleu.Proofs.Scope.Analysis
import Eleu.Proofs.Span.Hint
import Eleu.Proofs.Span.Union
import Eleu.Proofs.Store.Coherence
import Eleu.Proofs.Token.Partition
import Eleu.Proofs.Tree.Grammar
import Eleu.Proofs.Tree.Layout
import Eleu.Proofs.Tree.LexicalErrors
import Eleu.Proofs.Tree.Modes
import Eleu.Proofs.Tree.Places
import Eleu.Proofs.Tree.Regular
import Eleu.Proofs.Tree.Rendered
import Eleu.Proofs.Walker.Flows
