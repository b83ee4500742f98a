import CurveCalc.Main
import CurveCalc.Expr.Walk
import CurveCalc.Deriving.Method
import CurveCalc.Proofs.Derivation
import CurveCalc.Proofs.WellShaped
import CurveCalc.Proofs.FloatBits
import CurveCalc.Proofs.Rounding
import CurveCalc.Proofs.NumberText
import CurveCalc.Proofs.RoundTrip
import CurveCalc.Proofs.RealValue
import CurveCalc.Proofs.RealDerivative
import CurveCalc.Proofs.Parentheses
import CurveCalc.Proofs.DepthLimit
import CurveCalc.Proofs.SearchDepth
import CurveCalc.Proofs.Spelling
import CurveCalc.Proofs.OperatorRows
import CurveCalc.Proofs.Agreement
import CurveCalc.Proofs.Commands
import CurveCalc.Proofs.LineIsolation
import CurveCalc.Proofs.ExpressionLines
import CurveCalc.Proofs.PostOrder
import CurveCalc.Proofs.Inconsistencies
import CurveCalc.Proofs.Reentry
import CurveCalc.Proofs.CanonicalText
import CurveCalc.Proofs.Outline
import CurveCalc.Proofs.ChainedSums
import CurveCalc.Proofs.LiteralReading
import CurveCalc.Proofs.LiteralDecoder
import CurveCalc.Proofs.HexadecimalDigits
import CurveCalc.Proofs.RoundingTwice
import CurveCalc.Proofs.HexadecimalValue
import CurveCalc.Proofs.DiagnosisPlaces
import CurveCalc.Proofs.UnpackedDouble
import CurveCalc.Proofs.RoundedDouble
import CurveCalc.Proofs.DoubleOrder
import CurveCalc.Proofs.DoubleArithmetic
import CurveCalc.Proofs.CurveSampling
import CurveCalc.Proofs.ConstantDerivative
import CurveCalc.Proofs.Takes
import CurveCalc.Proofs.LocalTests
import CurveCalc.Proofs.ScanLocality
import CurveCalc.Proofs.PhraseLocality
import CurveCalc.Proofs.ArgumentLists
import CurveCalc.Proofs.DerivedMethod
import CurveCalc.Proofs.InputModes
import CurveCalc.Proofs.ChainCost
