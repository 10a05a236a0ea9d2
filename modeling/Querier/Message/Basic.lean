import Querier.Edns.Opt
import Querier.Header
import Querier.Question
import Querier.Record

/-!
# Messages

A decoded message: its header, its first question, its records without the OPT records,
and the content of the OPT record that counts.
-/

namespace Querier

/-- A decoded message and the octets it was decoded from. -/
structure Message where
  octets : Octets
  header : Header
  question : Option Question
  records : List Record
  opt : Option Opt
  deriving DecidableEq

namespace Message

/-- The records of one section. -/
def inSection (m : Message) (s : Section) : List Record := m.records.filter (·.part == s)

/-- The text of an optional part for diagnostics. -/
def describeOption {α : Type} (describe : α → String) : Option α → String
  | none => "None"
  | some a => "Some(" ++ describe a ++ ")"

/-- The text of a message for diagnostics. -/
def describe (m : Message) : String :=
  "Message \x7b header: " ++ m.header.describe
    ++ ", question: " ++ describeOption Question.describe m.question
    ++ ", records: [" ++ String.intercalate ", " (m.records.map Record.describe)
    ++ "], opt: " ++ describeOption Opt.describe m.opt ++ " \x7d"

end Message

end Querier
