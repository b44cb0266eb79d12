import LineScript.Main
import LineScript.Proofs.AcceptedExpressions
import LineScript.Proofs.ArrayLiterals
import LineScript.Proofs.AtomicFailure
import LineScript.Proofs.BlockNesting
import LineScript.Proofs.BodyClosings
import LineScript.Proofs.CallLimit
import LineScript.Proofs.ConstantVariables
import LineScript.Proofs.ControlFlow
import LineScript.Proofs.CountingLoops
import LineScript.Proofs.DisplayedValues
import LineScript.Proofs.EvictionLedger
import LineScript.Proofs.ExactEvaluation
import LineScript.Proofs.ExpressionTokens
import LineScript.Proofs.FaultOrigin
import LineScript.Proofs.IntegerArithmetic
import LineScript.Proofs.IntegerPower
import LineScript.Proofs.LayoutRoundTrip
import LineScript.Proofs.LineGrammar
import LineScript.Proofs.LoopFreeRuns
import LineScript.Proofs.NumberLiterals
import LineScript.Proofs.OutputLimit
import LineScript.Proofs.ParseConcatenation
import LineScript.Proofs.PostfixTokens
import LineScript.Proofs.ProgramSequence
import LineScript.Proofs.ReportLines
import LineScript.Proofs.SoundSessions
import LineScript.Proofs.SourceExcerpts
import LineScript.Proofs.SourceNumbering
import LineScript.Proofs.StatementFrame
import LineScript.Proofs.StoreCharacters
import LineScript.Proofs.TailRemoval
import LineScript.Proofs.TokenSubstitution
import LineScript.Proofs.TreeEvaluation
import LineScript.Proofs.WordPlaces
import LineScript.Proofs.WordsTaken
