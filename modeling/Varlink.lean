import Varlink.Library.Runs
import Varlink.Library.Delimited
import Varlink.Library.Regex
import Varlink.ReceiveRoom
import Varlink.OnewayCalls
import Varlink.TerminalReply
import Varlink.ServerOrder
import Varlink.ClientOrder
import Varlink.ServerTermination
import Varlink.FieldValidation
import Varlink.RoundTrip
import Varlink.SingleReceive
import Varlink.ClientCompletion
import Varlink.Dispatch
import Varlink.SendReceive
import Varlink.WriteStream
import Varlink.OverlappingReceives
import Varlink.CallMore
import Varlink.CanonicalTypes
import Varlink.GrammarAccepted
import Varlink.AcceptedTexts
import Varlink.SyncPairing
import Varlink.OwnReplies
import Varlink.StrandRuns
import Varlink.Undumpable
import Varlink.DecodeErrors
import Varlink.Termination
import Varlink.Exactness
import Varlink.PrintedTypes
import Varlink.OwnComments
import Varlink.MethodErrors
import Varlink.ServiceErrors
import Varlink.ParameterNames
import Varlink.ServiceRuns
import Varlink.ParsingEnds
import Varlink.Endpoint
import Varlink.ErrorCodes
import Varlink.RequestMessage
import Varlink.AsyncServer
import Varlink.Lexer
import Varlink.Introspection
import Varlink.SyncCalls
import Varlink.SyncProgress
import Varlink.RemoteIntrospection
import Varlink.JsonText
import Varlink.Library.Interning
import Varlink.Library.Fuel
