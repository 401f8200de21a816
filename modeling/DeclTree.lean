import DeclTree.Main
import DeclTree.Proofs.Cycles
import DeclTree.Proofs.Lexical
import DeclTree.Proofs.Sufficiency
import DeclTree.Proofs.Journal
import DeclTree.Session
import DeclTree.Proofs.Calls
import DeclTree.Proofs.Discipline
import DeclTree.Proofs.Integrity
import DeclTree.Proofs.Verdict
import DeclTree.Proofs.Completeness
import DeclTree.Proofs.Shifting
import DeclTree.Proofs.Agreement
import DeclTree.Proofs.Order
import DeclTree.Proofs.ControlFlow
import DeclTree.Proofs.Definitions
import DeclTree.Proofs.Lexemes
import DeclTree.Proofs.TagScopes
import DeclTree.Proofs.TagBinding
import DeclTree.Proofs.Numerals
import DeclTree.Proofs.JsonText
import DeclTree.Proofs.Documents
import DeclTree.Proofs.RoundTrip
import DeclTree.Proofs.Positions
import DeclTree.Proofs.Rendering
import DeclTree.Proofs.Obstacles
import DeclTree.Proofs.Unlinked
import DeclTree.Proofs.Range
import DeclTree.Proofs.Termination
import DeclTree.Proofs.Skipping
import DeclTree.Proofs.ClosedText
import DeclTree.Proofs.Precedence
import DeclTree.Proofs.Presets
import DeclTree.Proofs.FileOutput
import DeclTree.Proofs.IntegerConstants
import DeclTree.Proofs.NestedArrays
import DeclTree.Proofs.Distinctness
import DeclTree.Proofs.NameMaps
import DeclTree.Proofs.Indentation
