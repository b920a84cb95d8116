import RomAsm.Main
import RomAsm.Proofs.Solution
import RomAsm.Site
import RomAsm.Source.Reader
import RomAsm.Proofs.Lexing
import RomAsm.Proofs.Spelling
import RomAsm.Proofs.DataWidth
import RomAsm.Proofs.Element
import RomAsm.Proofs.Located
import RomAsm.Proofs.Placement
import RomAsm.Proofs.Emission
import RomAsm.Proofs.WellFormed
import RomAsm.Proofs.Assembling
import RomAsm.Proofs.Neighbours
import RomAsm.Proofs.Rewriting
import RomAsm.Proofs.Heads
import RomAsm.Proofs.Following
import RomAsm.Proofs.Sizes
import RomAsm.Proofs.Agreement
import RomAsm.Proofs.Decoding
import RomAsm.Proofs.Failing
import RomAsm.Proofs.Reuse
import RomAsm.Proofs.Positions
import RomAsm.Proofs.Strictness
import RomAsm.Proofs.SameSymbols
import RomAsm.Proofs.Acceptance
import RomAsm.Proofs.Genuine
import RomAsm.Proofs.Endings
import RomAsm.Proofs.Tokens
import RomAsm.Proofs.Diagnosis
import RomAsm.Proofs.FailureModes
import RomAsm.Proofs.Skeleton
import RomAsm.Proofs.Tiling
import RomAsm.Proofs.Boundaries
import RomAsm.Proofs.SingleAssignment
import RomAsm.Proofs.Termination
import RomAsm.Proofs.Quotes
import RomAsm.Proofs.Carets
import RomAsm.Proofs.Normalizing
import RomAsm.Proofs.Segments
import RomAsm.Proofs.Interleaving
import RomAsm.Proofs.EditDistance
import RomAsm.Proofs.DataValue
import RomAsm.Proofs.Quotation
import RomAsm.Proofs.Insertions
import RomAsm.Proofs.LiteralOperands
import RomAsm.Proofs.NormalForm
import RomAsm.Proofs.FieldValues
import RomAsm.Proofs.Pairs
