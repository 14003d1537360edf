import Electorate.Configuration.Reader
import Electorate.Handover.Call
import Electorate.Json.Reader
import Electorate.Main
import Electorate.Tracker.Shared
import Electorate.Proofs.Except
import Electorate.Proofs.IdMap
import Electorate.Proofs.Quorum
import Electorate.Proofs.Membership.Construction
import Electorate.Proofs.Membership.Policies
import Electorate.Proofs.Membership.Weight
import Electorate.Proofs.Tracker.History
import Electorate.Proofs.Tracker.Interleaving
import Electorate.Proofs.Tracker.Intersection
import Electorate.Proofs.Tracker.Poisoning
import Electorate.Proofs.Tracker.Policies
import Electorate.Proofs.Tracker.Stability
import Electorate.Proofs.Handover.History
import Electorate.Proofs.Handover.Intersection
import Electorate.Proofs.Handover.Live
import Electorate.Proofs.Handover.NoOp
import Electorate.Proofs.Handover.Policies
import Electorate.Proofs.Handover.Polling
import Electorate.Proofs.Handover.Refusal
import Electorate.Proofs.Handover.Stability
import Electorate.Proofs.Handover.Step
import Electorate.Proofs.Handover.Versions
import Electorate.Proofs.Member.Reader
import Electorate.Proofs.Member.Spec
import Electorate.Proofs.Text.Digits
import Electorate.Proofs.Configuration.Acceptance
import Electorate.Proofs.Configuration.Draft
import Electorate.Proofs.Configuration.Faults
import Electorate.Proofs.Configuration.Format
import Electorate.Proofs.Configuration.Lines
import Electorate.Proofs.Configuration.Rejection
import Electorate.Proofs.Configuration.Reload
import Electorate.Proofs.Configuration.Rendering
import Electorate.Proofs.Command.Agreement
import Electorate.Proofs.Member.Acceptance
import Electorate.Proofs.Member.RoundTrip
import Electorate.Proofs.Configuration.Addresses
import Electorate.Proofs.Files.Tree
import Electorate.Proofs.Command.Starter
import Electorate.Proofs.Json.Record
import Electorate.Proofs.Member.Stored
import Electorate.Proofs.Member.Layout
