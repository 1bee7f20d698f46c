import ConversionClosure.Main
import ConversionClosure.Proofs.Carrying
import ConversionClosure.Proofs.Routes
import ConversionClosure.Proofs.Adjacency
import ConversionClosure.Proofs.Metering
import ConversionClosure.Proofs.Search
import ConversionClosure.Proofs.Detours
import ConversionClosure.Proofs.Exactness
import ConversionClosure.Proofs.Delegation
import ConversionClosure.Proofs.Folding
import ConversionClosure.Proofs.Meaning
import ConversionClosure.Proofs.Lexing
import ConversionClosure.Proofs.Balance
import ConversionClosure.Proofs.Emitting
import ConversionClosure.Proofs.Reading
import ConversionClosure.Proofs.Reparsing
import ConversionClosure.Proofs.Telling
import ConversionClosure.Proofs.Declaring
import ConversionClosure.Proofs.Limiting
import ConversionClosure.Proofs.Items
import ConversionClosure.Proofs.Simple
import ConversionClosure.Proofs.Agreeing
import ConversionClosure.Proofs.Partition
import ConversionClosure.Proofs.Lines
import ConversionClosure.Proofs.Outcomes
import ConversionClosure.Proofs.Recovery
import ConversionClosure.Proofs.FirstRoutes
import ConversionClosure.Proofs.Accounting
import ConversionClosure.Proofs.Checking
import ConversionClosure.Proofs.Roundtrip
import ConversionClosure.Proofs.Matching
import ConversionClosure.Proofs.Literals
import ConversionClosure.Proofs.Witnesses
import ConversionClosure.Proofs.Backtracking
import ConversionClosure.Proofs.Workload
import ConversionClosure.Proofs.Mentioning
import ConversionClosure.Proofs.ParameterLists
import ConversionClosure.Proofs.Ending
import ConversionClosure.Proofs.Shapes
import ConversionClosure.Proofs.Enforcing
import ConversionClosure.Proofs.Booking
import ConversionClosure.Proofs.Keeping
import ConversionClosure.Proofs.Configuring
