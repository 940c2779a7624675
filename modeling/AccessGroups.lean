import AccessGroups.Main
import AccessGroups.Proofs.Command.Overrides
import AccessGroups.Proofs.Command.Variables
import AccessGroups.Proofs.Json.Stored
import AccessGroups.Proofs.Scenario.Punctual
import AccessGroups.Proofs.Service.Changes
import AccessGroups.Proofs.Service.Compensation
import AccessGroups.Proofs.Service.Evaluation
import AccessGroups.Proofs.Service.Exhaustion
import AccessGroups.Proofs.Service.Removal
import AccessGroups.Proofs.Store.Issuer
import AccessGroups.Proofs.Store.Mirror
import AccessGroups.Proofs.Sweep.Cut
import AccessGroups.Proofs.Sweep.Exclusive
import AccessGroups.Proofs.Sweep.Findings
import AccessGroups.Proofs.Sweep.Inert
import AccessGroups.Proofs.Sweep.Justified
import AccessGroups.Proofs.Sweep.Newcomer
import AccessGroups.Proofs.Sweep.Recovery
import AccessGroups.Proofs.Sweep.Revoked
import AccessGroups.Proofs.Sweep.Search
import AccessGroups.Proofs.Sweep.Sharing
import AccessGroups.Proofs.Sweep.Tally
import AccessGroups.Proofs.Sweep.Totals
import AccessGroups.Proofs.Sweep.Vacant
import AccessGroups.Proofs.Sweep.WellFormed
import AccessGroups.Scenario.Session
