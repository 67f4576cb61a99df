import Tabletop.Main
import Tabletop.Proofs.Dice.Ends
import Tabletop.Proofs.Dice.Combining
import Tabletop.Proofs.Dice.Rerolling
import Tabletop.Proofs.Dice.Keeping
import Tabletop.Proofs.Notation.Complaints
import Tabletop.Proofs.Expression.Average
import Tabletop.Proofs.Expression.Evaluation
import Tabletop.Proofs.Expression.WellFormed
import Tabletop.Proofs.Expression.History
import Tabletop.Proofs.Expression.Limit
import Tabletop.Proofs.Expression.InPlace
import Tabletop.Proofs.Roller.Replay
import Tabletop.Proofs.Roller.Failure
import Tabletop.Proofs.Engine.Cycles
import Tabletop.Proofs.Dice.Scoring
import Tabletop.Proofs.Table.Markers
import Tabletop.Proofs.Table.Drawing
import Tabletop.Proofs.Number.Order
import Tabletop.Proofs.Table.Written
import Tabletop.Proofs.Text.Digits
import Tabletop.Proofs.Table.Ranges
import Tabletop.Proofs.Table.Lookups
import Tabletop.Proofs.Table.Columns
import Tabletop.Proofs.Table.References
import Tabletop.Proofs.Text.Pieces
import Tabletop.Proofs.Expression.ResultText
import Tabletop.Proofs.Notation.Adjoining
import Tabletop.Proofs.Notation.Canonical
import Tabletop.Proofs.Dice.Bounds
import Tabletop.Proofs.Dice.Percentile
import Tabletop.Proofs.Expression.Exactness
import Tabletop.Proofs.Dice.Editing
import Tabletop.Proofs.Text.Outline
import Tabletop.Proofs.Json.Written
import Tabletop.Proofs.Dice.Reworking
import Tabletop.Proofs.Dice.Stunt
import Tabletop.Proofs.Roller.Records
