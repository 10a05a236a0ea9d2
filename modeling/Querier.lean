import Querier.Address.Ip
import Querier.Address.Socket
import Querier.Address.Subnet
import Querier.Address.Text
import Querier.Codes
import Querier.Config.Basic
import Querier.Config.Form
import Querier.Connector
import Querier.Datagram.Acceptance
import Querier.Datagram.Flights
import Querier.Datagram.MatchKey
import Querier.Datagram.Pending
import Querier.DecodeError
import Querier.Dispatch.Journal
import Querier.Dispatch.Query
import Querier.Dispatch.Resolve
import Querier.Dispatch.Task
import Querier.Dispatch.Validation
import Querier.Duration
import Querier.Edns.ClientSubnet
import Querier.Edns.Opt
import Querier.Edns.Option
import Querier.Edns.Padding
import Querier.Failure.IoError
import Querier.Failure.SystemError
import Querier.Failure.TransportError
import Querier.Header
import Querier.Host
import Querier.Json
import Querier.Log
import Querier.Message.Basic
import Querier.Message.Compression
import Querier.Message.Decode
import Querier.Message.Writer
import Querier.Name.Basic
import Querier.Name.Text
import Querier.Name.Wire
import Querier.Octets
import Querier.Outcome
import Querier.Pool
import Querier.Proofs.Name.Spelling
import Querier.Proofs.Name.Reading
import Querier.Proofs.View
import Querier.Question
import Querier.Randomness
import Querier.Record
import Querier.Registry
import Querier.Section
import Querier.Stream
import Querier.Table
import Querier.Telemetry
import Querier.Text.Decimal
import Querier.Text.Digits
import Querier.Text.Literal
import Querier.Proofs.Message.Compression
import Querier.Proofs.Message.Search
import Querier.Proofs.Message.Walks
import Querier.Proofs.Message.Grammar
import Querier.Proofs.Message.Opt
import Querier.Proofs.Writer.Names
import Querier.Proofs.Header
import Querier.Proofs.Header.Fields
import Querier.Proofs.Writer.Integrity
import Querier.Proofs.Writer.Extension
import Querier.Proofs.Writer.Question
import Querier.Proofs.Writer.Rollback
import Querier.Proofs.Writer.RoundTrip
import Querier.Proofs.Writer.Truncation
import Querier.Proofs.Writer.Rebuild
import Querier.Proofs.Datagram.Guards
import Querier.Proofs.Datagram.Followers
import Querier.Proofs.Dispatch.Verdict
import Querier.Proofs.Stream
import Querier.Proofs.Dispatch.Ledger
import Querier.Proofs.Dispatch.Quiet
import Querier.Proofs.Dispatch.Traffic
import Querier.Proofs.Dispatch.Alignment
import Querier.Proofs.Datagram.Acceptance
import Querier.Proofs.Datagram.Forgeries
import Querier.Proofs.Pool.Counting
import Querier.Proofs.Pool.Custody
import Querier.Proofs.Pool.Recency
import Querier.Proofs.Pool.Cleaning
import Querier.Proofs.Config
import Querier.Proofs.Address.Subnet
import Querier.Proofs.Edns.ClientSubnet
import Querier.Proofs.Edns.Opt
import Querier.Proofs.Writer.Opt
import Querier.Proofs.Writer.OptDecoding
import Querier.Proofs.Dispatch.Query
import Querier.Proofs.Dispatch.Agreement
import Querier.Proofs.Dispatch.StreamAnswers
import Querier.Proofs.Dispatch.QuerySize
import Querier.Proofs.Dispatch.QueryLayout
import Querier.Proofs.Dispatch.SharedQuery
import Querier.Proofs.Journal
import Querier.Proofs.Dispatch.Interleaving
import Querier.Proofs.Dispatch.Accounting
import Querier.Proofs.Dispatch.Conclusion
import Querier.Proofs.Dispatch.WithoutEdns
import Querier.Proofs.Dispatch.ClientSubnets
import Querier.Proofs.Dispatch.Telemetry
import Querier.Proofs.Dispatch.Retries
import Querier.Proofs.Dispatch.QueryLimit
import Querier.Proofs.Stream.Pauses
import Querier.Proofs.Name.WireForm
import Querier.Proofs.Name.Presentation
import Querier.Proofs.Name.Case
import Querier.Proofs.Datagram.Keys
import Querier.Proofs.Message.Prefix
import Querier.Proofs.Address.Number
import Querier.Proofs.Edns.SubnetForm
import Querier.Proofs.Edns.OptionSequence
import Querier.Proofs.Address.Text
import Querier.Proofs.Config.Form
