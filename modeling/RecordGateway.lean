import RecordGateway.Main
import RecordGateway.Deadline
import RecordGateway.LogFilter
import RecordGateway.Shutdown
import RecordGateway.Proofs.GraphQL.Reach
import RecordGateway.Proofs.GraphQL.Parsing
import RecordGateway.Proofs.GraphQL.Accepted
import RecordGateway.Proofs.GraphQL.Sound
import RecordGateway.Proofs.Execution.Conditions
import RecordGateway.Proofs.Execution.Settled
import RecordGateway.Proofs.GraphQL.Lexing
import RecordGateway.Proofs.Registry
import RecordGateway.Proofs.Execution.Call
import RecordGateway.Proofs.GraphQL.Merging
import RecordGateway.Proofs.Execution.Merging
import RecordGateway.Proofs.Text.Encoding
import RecordGateway.Proofs.Http.Transport
import RecordGateway.Proofs.Http.Serving
import RecordGateway.Proofs.Execution.Visits
import RecordGateway.Proofs.Execution.Asked
import RecordGateway.Proofs.Wire.RoundTrip
import RecordGateway.Proofs.Downstream.Transparent
import RecordGateway.Proofs.Http.Body
import RecordGateway.Proofs.Http.Endpoint
import RecordGateway.Proofs.Http.Names
import RecordGateway.Proofs.Http.Traffic
import RecordGateway.Proofs.GraphQL.Filling.Basic
import RecordGateway.Proofs.GraphQL.Filling.Values
import RecordGateway.Proofs.GraphQL.Filling.Rules
import RecordGateway.Proofs.GraphQL.Filling.Alike
import RecordGateway.Proofs.GraphQL.Filling.Survey
import RecordGateway.Proofs.GraphQL.Filling.Merging
import RecordGateway.Proofs.GraphQL.Filling.Document
import RecordGateway.Proofs.Execution.Literals
import RecordGateway.Proofs.Config.Problems
import RecordGateway.Proofs.Config.Overriding
import RecordGateway.Proofs.Execution.Cut
import RecordGateway.Proofs.Execution.Declared
import RecordGateway.Proofs.Execution.OneRecord
import RecordGateway.Proofs.Shutdown
import RecordGateway.Proofs.Execution.Fallbacks
import RecordGateway.Proofs.Execution.Termination
import RecordGateway.Proofs.Registry.Building
import RecordGateway.Proofs.Wire.Presentations
import RecordGateway.Proofs.Http.Members
