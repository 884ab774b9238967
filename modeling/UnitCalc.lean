import UnitCalc.Main
import UnitCalc.Proofs.Calculator.Physical
import UnitCalc.Proofs.Measure.RoundTrip
import UnitCalc.Proofs.Postfix.Accepted
import UnitCalc.Proofs.Postfix.Bounded
import UnitCalc.Proofs.Postfix.Precedence
import UnitCalc.Proofs.Postfix.Refinement
import UnitCalc.Proofs.Postfix.Resolution
import UnitCalc.Proofs.Session.Accepted
import UnitCalc.Proofs.Session.Afresh
import UnitCalc.Proofs.Session.Answers
import UnitCalc.Proofs.Session.Programs
import UnitCalc.Proofs.Session.Expressions
import UnitCalc.Proofs.Session.Indices
import UnitCalc.Proofs.Session.Invocation
import UnitCalc.Proofs.Session.Keys
import UnitCalc.Proofs.Session.Lexical
import UnitCalc.Proofs.Session.Reentry
import UnitCalc.Proofs.Session.Rejected
import UnitCalc.Proofs.Session.Routes
import UnitCalc.Proofs.Statement.Divisors
import UnitCalc.Proofs.Statement.Printing
import UnitCalc.Proofs.Statement.Spellings
import UnitCalc.Proofs.Postfix.Conservation
import UnitCalc.Proofs.Session.Pure
import UnitCalc.Proofs.Session.Untouched
import UnitCalc.Proofs.Session.Whole
import UnitCalc.Proofs.Session.UnitNames
import UnitCalc.Proofs.Postfix.UnitRuns
import UnitCalc.Proofs.Method.Reversed
import UnitCalc.Proofs.Method.Visits
import UnitCalc.Proofs.Session.Searches
import UnitCalc.Proofs.Method.Terms
import UnitCalc.Proofs.Method.Products
import UnitCalc.Proofs.Method.Magnitudes
import UnitCalc.Proofs.Method.Computed
import UnitCalc.Proofs.Method.Bracketing
import UnitCalc.Proofs.Method.Areas
import UnitCalc.Proofs.Method.Slopes
import UnitCalc.Proofs.Calculator.Multiples
import UnitCalc.Proofs.Statement.Scripts
import UnitCalc.Proofs.Statement.Termination
import UnitCalc.Proofs.Statement.Modes
import UnitCalc.Proofs.Quantity.Conversions
import UnitCalc.Proofs.Measure.Construction
import UnitCalc.Proofs.Session.Assigned
import UnitCalc.Proofs.Session.Formulas
