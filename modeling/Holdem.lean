import Holdem.Main
import Holdem.Proofs.InPlace.Safety
import Holdem.Proofs.Settlement.ZeroSum
import Holdem.Proofs.Table.Legality
import Holdem.Proofs.Table.Phases
import Holdem.Proofs.Table.TurnOrder
import Holdem.Settlement.Scripted
import Holdem.Web.Service
import Holdem.Proofs.Settlement.Outcome
import Holdem.Proofs.Settlement.Input
import Holdem.Proofs.Settlement.Replay
import Holdem.Proofs.Settlement.Dealing
import Holdem.Proofs.Settlement.Losses
import Holdem.Proofs.Sequence.Shape
import Holdem.Proofs.Settlement.Continuation
import Holdem.Proofs.Settlement.Rehearsal
import Holdem.Proofs.Settlement.BoardStreets
import Holdem.Proofs.Settlement.Calls
import Holdem.Proofs.Settlement.Events
import Holdem.Proofs.InPlace.OtherCards
import Holdem.Proofs.Table.Onward
import Holdem.Proofs.InPlace.Ending
import Holdem.Proofs.Table.Length
import Holdem.Proofs.Settlement.DealOrder
import Holdem.Proofs.Sequence.Grammar
import Holdem.Proofs.Sequence.Printing
import Holdem.Proofs.Record.RoundTrip
import Holdem.Proofs.History.Backends
import Holdem.Proofs.Record.Amounts
import Holdem.Proofs.Web.Ledger
import Holdem.Proofs.Hand.BestFive
import Holdem.Proofs.Pot.Partition
import Holdem.Proofs.Table.EvenSplit
import Holdem.Proofs.Table.LoneActor
import Holdem.Proofs.Table.Effect
import Holdem.Proofs.Settlement.Shortcut
import Holdem.Proofs.Table.Reused
import Holdem.Proofs.Record.Players
import Holdem.Proofs.Hand.Symmetry
import Holdem.Proofs.Hand.Multiplicity
import Holdem.Proofs.Pot.Better
import Holdem.Proofs.Web.Verdict
import Holdem.Proofs.Command.Agreement
