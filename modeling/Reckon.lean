import Reckon.Console
import Reckon.Main
import Reckon.Proofs.Report.Textbook
import Reckon.Proofs.Yard.Agreement
import Reckon.Proofs.Yard.Chained
import Reckon.Service
import Reckon.Session
import Reckon.Proofs.Token.Delivered
import Reckon.Proofs.Token.Munch
import Reckon.Proofs.Yard.Tally
import Reckon.Proofs.Chain.Grammar
import Reckon.Proofs.Report.Recorded
import Reckon.Proofs.Report.WellFormed
import Reckon.Proofs.Decimal.Exact
import Reckon.Proofs.Decimal.Nearest
import Reckon.Proofs.Decimal.Spacing
import Reckon.Proofs.Decimal.Countdown
import Reckon.Proofs.Decimal.Multiplication
import Reckon.Proofs.Decimal.Power
import Reckon.Proofs.Postfix.Faults
import Reckon.Proofs.Report.Faults
import Reckon.Proofs.Decimal.ExactPower
import Reckon.Proofs.Tree.Exact
import Reckon.Proofs.Phrase.Segments
import Reckon.Proofs.Yard.Substitution
import Reckon.Proofs.Decimal.Common
import Reckon.Proofs.Report.ReadBack
import Reckon.Proofs.Report.Certified
import Reckon.Proofs.Yard.Ledger
import Reckon.Proofs.Decimal.Counting
import Reckon.Proofs.Phrase.PairSum
import Reckon.Proofs.Report.Notation
import Reckon.Proofs.Report.Unknown
import Reckon.Proofs.Report.Extended
import Reckon.Proofs.Report.LetterCase
import Reckon.Proofs.Yard.Parentheses
import Reckon.Proofs.Phrase.Running
import Reckon.Proofs.Report.Spoken
import Reckon.Proofs.Service.Agreement
import Reckon.Proofs.Decimal.Canonical
import Reckon.Proofs.Postfix.Represented
import Reckon.Proofs.Decimal.Counted
import Reckon.Proofs.Decimal.UnitPower
import Reckon.Proofs.Token.Resumed
import Reckon.Proofs.Token.Redelivered
import Reckon.Proofs.Token.Joined
import Reckon.Proofs.Session.Words
import Reckon.Proofs.Postfix.Raises
import Reckon.Proofs.Report.Literal
import Reckon.Proofs.Postfix.Known
import Reckon.Proofs.Yard.Ordered
import Reckon.Proofs.Settings.Environment
