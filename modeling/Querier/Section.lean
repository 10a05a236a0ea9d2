/-!
# Sections

The four parts of a message.
-/

namespace Querier

/-- A part of a message. -/
inductive Section where
  | question
  | answer
  | authority
  | additional
  deriving DecidableEq, Repr

namespace Section

/-- The part that follows. -/
def next? : Section → Option Section
  | .question => some .answer
  | .answer => some .authority
  | .authority => some .additional
  | .additional => none

/-- The name of a section in diagnostics. -/
def name : Section → String
  | .question => "Question"
  | .answer => "Answer"
  | .authority => "Authority"
  | .additional => "Additional"

end Section

end Querier
