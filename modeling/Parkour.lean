import Parkour.Main
import Parkour.Proofs.Engine.Run
import Parkour.Proofs.Engine.Deed
import Parkour.Proofs.Engine.Upkeep
import Parkour.Proofs.Engine.Recast
import Parkour.Proofs.Engine.History
import Parkour.Proofs.Engine.Bound
import Parkour.Proofs.Engine.Names
import Parkour.Proofs.Engine.Footprint
import Parkour.Proofs.Engine.Opening
import Parkour.Proofs.Engine.Depth
import Parkour.Proofs.Engine.Impartial
import Parkour.Proofs.Engine.Rehearsal
import Parkour.Proofs.Engine.Solving
import Parkour.Proofs.Engine.Enclosure
import Parkour.Proofs.Engine.Repetition
import Parkour.Proofs.Engine.Listening
import Parkour.Proofs.Engine.Watching
import Parkour.Proofs.Expression.Grammar
import Parkour.Proofs.Expression.Evaluation
import Parkour.Proofs.Expression.Acceptance
import Parkour.Proofs.Sequence.Brackets
import Parkour.Proofs.Sequence.Cuts
import Parkour.Proofs.Sequence.Splitting
import Parkour.Proofs.Sequence.Nested
import Parkour.Proofs.Sequence.Printing
import Parkour.Proofs.Engine.Succession
import Parkour.Proofs.Number.Order
import Parkour.Proofs.Player.Setting
import Parkour.Proofs.Player.Validity
import Parkour.Proofs.Engine.Journal
import Parkour.Proofs.Engine.Validity
import Parkour.Proofs.Engine.Once
import Parkour.Proofs.Engine.Invariant
import Parkour.Proofs.Binding.Shape
import Parkour.Proofs.Engine.Registry
import Parkour.Proofs.Binding.Typing
import Parkour.Proofs.Binding.Faults
import Parkour.Proofs.Engine.Demands
import Parkour.Proofs.Engine.Controls
import Parkour.Proofs.Engine.Stepwise
import Parkour.Proofs.Engine.Failure
import Parkour.Proofs.Number.Rounding
import Parkour.Proofs.Number.Sum
import Parkour.Proofs.Number.Packing
import Parkour.Proofs.Player.Fingerprint
import Parkour.Proofs.Engine.Isolation
import Parkour.Proofs.Player.Ceiling
import Parkour.Proofs.Player.Parts
import Parkour.Proofs.Engine.Verbatim
import Parkour.Proofs.Sequence.Escaping
import Parkour.Proofs.Player.Feedback
import Parkour.Proofs.Engine.Duration
import Parkour.Proofs.Binding.Reading
import Parkour.Proofs.Binding.Placement
import Parkour.Proofs.Binding.Default
import Parkour.Proofs.Sequence.Balance
import Parkour.Proofs.Sequence.Culprit
import Parkour.Proofs.Number.Absolute
import Parkour.Proofs.Player.Rotation
import Parkour.Proofs.Engine.Aiming
import Parkour.Proofs.Number.Single
import Parkour.Proofs.Report.Foresight
import Parkour.Proofs.Command.Grammar
import Parkour.Proofs.Command.Location
import Parkour.Proofs.Binding.Display
import Parkour.Proofs.Engine.Suggestion
import Parkour.Proofs.Sequence.Prepared
import Parkour.Proofs.Engine.Bodies
import Parkour.Proofs.Number.Numerals
import Parkour.Proofs.Expression.Definite
import Parkour.Proofs.Expression.Spelling
import Parkour.Proofs.Expression.Lexemes
import Parkour.Proofs.Engine.Definite
import Parkour.Proofs.Number.Worth
import Parkour.Proofs.Binding.Integers
import Parkour.Proofs.Number.Decimal
import Parkour.Proofs.Report.Amount
