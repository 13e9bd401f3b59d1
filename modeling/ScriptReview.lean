import ScriptReview.Main
import ScriptReview.Service
import ScriptReview.Tree.Listing
import ScriptReview.Proofs.Findings.Agreement
import ScriptReview.Proofs.Findings.ArrayAccess
import ScriptReview.Proofs.Findings.AsyncGuard
import ScriptReview.Proofs.Findings.Complexity
import ScriptReview.Proofs.Findings.Conservation
import ScriptReview.Proofs.Attribution
import ScriptReview.Proofs.Averages
import ScriptReview.Proofs.Bundles
import ScriptReview.Proofs.Chains
import ScriptReview.Proofs.Concord
import ScriptReview.Proofs.CostIndex
import ScriptReview.Proofs.Findings.Danger
import ScriptReview.Proofs.Findings.Operands
import ScriptReview.Proofs.Findings.RequestInput
import ScriptReview.Proofs.Findings.Table
import ScriptReview.Proofs.History
import ScriptReview.Proofs.Junction
import ScriptReview.Proofs.MoreFindings
import ScriptReview.Proofs.Normalization
import ScriptReview.Proofs.Offences
import ScriptReview.Proofs.Order.Outcome
import ScriptReview.Proofs.Override
import ScriptReview.Proofs.Paths
import ScriptReview.Proofs.ReadBack
import ScriptReview.Proofs.Readable
import ScriptReview.Proofs.Service.History
import ScriptReview.Proofs.Service.Lookups
import ScriptReview.Proofs.Tree.Breakage
import ScriptReview.Proofs.Tree.Places
import ScriptReview.Proofs.Tree.Templates
import ScriptReview.Proofs.Trivia.Bare
import ScriptReview.Proofs.Trivia.Checks
import ScriptReview.Proofs.Trivia.Comments
import ScriptReview.Proofs.Wording.Changes
