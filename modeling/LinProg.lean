import LinProg.Event.Message
import LinProg.Main
import LinProg.Proofs.Search
import LinProg.Arithmetic.Exact
import LinProg.Proofs.Exchange
import LinProg.Proofs.Limit
import LinProg.Proofs.Improvement
import LinProg.Proofs.Bland
import LinProg.Proofs.Termination
import LinProg.Proofs.Repair
import LinProg.Proofs.Problem
import LinProg.Proofs.Reoptimization
import LinProg.Proofs.Double
import LinProg.Proofs.CanonicalRun
import LinProg.Proofs.Closure
import LinProg.Proofs.Readiness
import LinProg.Proofs.Finiteness
import LinProg.Proofs.Formulation
import LinProg.Proofs.Cutoff
import LinProg.Proofs.DualSide
import LinProg.Proofs.RenamedSearch
import LinProg.Proofs.Trace
import LinProg.Proofs.PrimalSide
import LinProg.Proofs.RhsChange
import LinProg.Proofs.Alternates
import LinProg.Proofs.Violation
import LinProg.Proofs.BestApproximation
import LinProg.Proofs.ExactSnap
import LinProg.Proofs.Thresholds
import LinProg.Proofs.Requests
import LinProg.Proofs.Restart
import LinProg.Proofs.RatioTest
import LinProg.Proofs.ContinuedFraction
import LinProg.Proofs.Batches
import LinProg.Proofs.Bordering
import LinProg.Proofs.Amounts
