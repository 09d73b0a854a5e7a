import Reckoner.Main
import Reckoner.Request
import Reckoner.Proofs.Literals
import Reckoner.Proofs.Rendering
import Reckoner.Proofs.Operands
import Reckoner.Proofs.Termination
import Reckoner.Proofs.Rows
import Reckoner.Proofs.Sites
import Reckoner.Proofs.Rounds
import Reckoner.Proofs.Results
import Reckoner.Proofs.Groups
import Reckoner.Proofs.Separation
import Reckoner.Proofs.Lexemes
import Reckoner.Proofs.Outcomes
import Reckoner.Proofs.Chains
import Reckoner.Proofs.Expressions
import Reckoner.Proofs.Variables
import Reckoner.Proofs.Orderly
import Reckoner.Proofs.Meaning
import Reckoner.Proofs.Magnitudes
import Reckoner.Proofs.Opposites
import Reckoner.Proofs.Fronts
import Reckoner.Proofs.Facing
import Reckoner.Proofs.Negations
import Reckoner.Proofs.NegatedVariables
import Reckoner.Proofs.Stages
import Reckoner.Proofs.TrailingSpaces
import Reckoner.Proofs.LeadingSpaces
import Reckoner.Proofs.PaddedGroups
import Reckoner.Proofs.Endings
import Reckoner.Proofs.Clogged
import Reckoner.Proofs.BlankGroups
import Reckoner.Proofs.Twins
import Reckoner.Proofs.Alignment
import Reckoner.Proofs.Spacing
import Reckoner.Proofs.Replacement
import Reckoner.Proofs.BareFractions
import Reckoner.Proofs.Verdicts
import Reckoner.Proofs.Resolution
import Reckoner.Proofs.Substitution
import Reckoner.Proofs.History
import Reckoner.Proofs.Acceptance
import Reckoner.Proofs.Isolation
import Reckoner.Proofs.Commands
import Reckoner.Proofs.Reentry
import Reckoner.Proofs.InputLines
import Reckoner.Proofs.Sessions
import Reckoner.Proofs.NormalForms
import Reckoner.Proofs.Runs
import Reckoner.Proofs.Leftmost
import Reckoner.Proofs.Answers
import Reckoner.Proofs.Balance
import Reckoner.Proofs.Readings
import Reckoner.Proofs.SingleOperations
import Reckoner.Proofs.LongestMatch
import Reckoner.Proofs.Rounding
import Reckoner.Proofs.Numerals
import Reckoner.Proofs.Splicing
import Reckoner.Proofs.Provenance
import Reckoner.Proofs.CanonicalAnswers
import Reckoner.Proofs.DirectSides
import Reckoner.Proofs.Boundaries
import Reckoner.Proofs.ByteReaders
import Reckoner.Proofs.ByteSearch
import Reckoner.Proofs.ByteOperations
import Reckoner.Proofs.ByteNumbers
import Reckoner.Proofs.ByteRounds
import Reckoner.Proofs.ByteGroups
import Reckoner.Proofs.ByteCommands
