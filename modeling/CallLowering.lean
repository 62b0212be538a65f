import CallLowering.Json.Printer
import CallLowering.Main
import CallLowering.Proofs.CallTrace
import CallLowering.Proofs.FirstMatch
import CallLowering.Proofs.Availability
import CallLowering.Proofs.DeadCode
import CallLowering.Proofs.Tagging
import CallLowering.Proofs.Permuting
import CallLowering.Proofs.Acyclicity
import CallLowering.Proofs.Hygiene
import CallLowering.Proofs.Linkage
import CallLowering.Proofs.Unwinding
import CallLowering.Proofs.ForeignCalls
import CallLowering.Proofs.Delivery
import CallLowering.Proofs.RoundTrip
import CallLowering.Proofs.Substituting
import CallLowering.Proofs.ForeignArguments
import CallLowering.Proofs.Merging
import CallLowering.Proofs.Aggregates
import CallLowering.Proofs.Deciding
import CallLowering.Proofs.Sessions
