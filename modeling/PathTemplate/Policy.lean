import PathTemplate.Text.Blank

namespace PathTemplate

inductive Policy where
  | strict
  | lenient
  deriving DecidableEq, Repr

namespace Policy

def name : Policy → String
  | .strict => "strict"
  | .lenient => "lenient"

def folded (s : String) : String := String.ofList ((Text.trim s).toList.map Char.toLower)

def unknownMessage (word : String) : String :=
  "unknown resolution policy `" ++ word ++ "` (expected strict or lenient)"

/-- Reads a policy's name in any case and with blanks around it; an error is the message. -/
def ofText (s : String) : Except String Policy :=
  let word := folded s
  if word = "strict" then .ok .strict
  else if word = "lenient" then .ok .lenient
  else .error (unknownMessage word)

end Policy

end PathTemplate
