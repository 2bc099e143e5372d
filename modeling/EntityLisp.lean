import EntityLisp.Form.Stream
import EntityLisp.Session
import EntityLisp.Settings
import EntityLisp.Proofs.Rounding
import EntityLisp.Proofs.NumeralText
import EntityLisp.Proofs.Results
import EntityLisp.Proofs.Words
import EntityLisp.Proofs.AtomText
import EntityLisp.Proofs.FormTree
import EntityLisp.Proofs.SourceTokens
import EntityLisp.Proofs.ReadBack
import EntityLisp.Proofs.Ensures
import EntityLisp.Proofs.Values
import EntityLisp.Proofs.Arithmetic
import EntityLisp.Proofs.Evaluation
import EntityLisp.Proofs.Calls
import EntityLisp.Proofs.LoopVisits
import EntityLisp.Proofs.Escape
import EntityLisp.Proofs.EscapeForms
import EntityLisp.Proofs.Overflow
import EntityLisp.Proofs.Answers
import EntityLisp.Proofs.Sheltered
import EntityLisp.Proofs.Frame
import EntityLisp.Proofs.Undeclared
import EntityLisp.Proofs.Cutoff
import EntityLisp.Proofs.Alike
import EntityLisp.Proofs.AlikePayloads
import EntityLisp.Proofs.AlikeForms
import EntityLisp.Proofs.TwoRuns
import EntityLisp.Proofs.LetForms
import EntityLisp.Proofs.Avoids
import EntityLisp.Proofs.Captured
import EntityLisp.Proofs.Siblings
import EntityLisp.Proofs.Brackets
import EntityLisp.Proofs.DepthLimit
import EntityLisp.Proofs.UnseenTraits
import EntityLisp.Proofs.Pools
import EntityLisp.Proofs.EntryOrder
import EntityLisp.Proofs.SharedScopes
import EntityLisp.Proofs.Layouts
import EntityLisp.Proofs.Programs
import EntityLisp.Proofs.Calculation
import EntityLisp.Proofs.Ledger
import EntityLisp.Proofs.RecordedParts
import EntityLisp.Proofs.Visits
import EntityLisp.Proofs.VisitForms
import EntityLisp.Proofs.Makings
import EntityLisp.Proofs.ClosureIdentity
import EntityLisp.Proofs.Reachable
import EntityLisp.Proofs.Renumbering
import EntityLisp.Proofs.LetAsCall
import EntityLisp.Proofs.CallScopes
import EntityLisp.Proofs.Fixing
import EntityLisp.Proofs.OwnParameters
import EntityLisp.Proofs.LiteralBindings
import EntityLisp.Proofs.Cursor
import EntityLisp.Proofs.Wrappers
import EntityLisp.Proofs.Spellings
import EntityLisp.Proofs.OperandForms
import EntityLisp.Proofs.AttributeEntries
import EntityLisp.Proofs.RoleForms
import EntityLisp.Proofs.StrictPositions
import EntityLisp.Proofs.EntityEquality
import EntityLisp.Proofs.Merging
import EntityLisp.Proofs.AttributeLists
import EntityLisp.Proofs.NumeralLayouts
import EntityLisp.Proofs.ShallowTrees
