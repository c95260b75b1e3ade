import Varlink.ServiceRuns
import Varlink.RoundTrip
import Varlink.ServerReplies
import Varlink.ParameterNames

/-! What a service tells of its interfaces: those that `GetInfo` lists are described, and
no others. A description is to be read as the interface that it is of. -/

namespace Varlink.LiveService

open ServerReplies (requestAnswers behaviourAnswers replyObject)

def describedAs (i : VarlinkInterface) : String := String.ofList i.toText

section Answers
variable {dump : Dump} {stack : Nat} {message : VarlinkMessage}

end Answers

section Described
variable (r : ServiceRegistry) (dump : Dump) {message : VarlinkMessage} {parameter : Json}

def specs : List VarlinkInterface := r.spec :: r.added.map (·.spec)

end Described

variable {desc : Description} {past : List (AddCall × Option Exn)} {s : LiveService}

end Varlink.LiveService
