import EcmaSyntax.CommandLine
import EcmaSyntax.Main
import EcmaSyntax.Proofs.ArrayElements
import EcmaSyntax.Proofs.Coherence
import EcmaSyntax.Proofs.CommentPlaces
import EcmaSyntax.Proofs.Completion
import EcmaSyntax.Proofs.Concatenation
import EcmaSyntax.Proofs.Conservation
import EcmaSyntax.Proofs.DanglingElse
import EcmaSyntax.Proofs.Delivery
import EcmaSyntax.Proofs.DepthLimit
import EcmaSyntax.Proofs.Dump
import EcmaSyntax.Proofs.Layout
import EcmaSyntax.Proofs.LineBreaks
import EcmaSyntax.Proofs.LiteralCooking
import EcmaSyntax.Proofs.LongestMatch
import EcmaSyntax.Proofs.LoopHeaders
import EcmaSyntax.Proofs.Machine
import EcmaSyntax.Proofs.Nesting
import EcmaSyntax.Proofs.NodeLabels
import EcmaSyntax.Proofs.OmittedSemicolons
import EcmaSyntax.Proofs.PositionOrder
import EcmaSyntax.Proofs.Precedence
import EcmaSyntax.Proofs.Printing.RoundTrip
import EcmaSyntax.Proofs.RadixNumerals
import EcmaSyntax.Proofs.ReportLabels
import EcmaSyntax.Proofs.RestrictedProductions
import EcmaSyntax.Proofs.Resumption
import EcmaSyntax.Proofs.SettledFailures
import EcmaSyntax.Proofs.StatementLists
import EcmaSyntax.Proofs.StringLiterals
import EcmaSyntax.Proofs.StringValues
import EcmaSyntax.Proofs.Tiling
import EcmaSyntax.Proofs.Traversal
import EcmaSyntax.Proofs.WellFormed
import EcmaSyntax.Proofs.WrittenSemicolons
