import PathTemplate.Constant

namespace PathTemplate

/-- One step of navigation. Members are named together with the record that owns them. -/
inductive Access where
  | field (owner name : String)
  | method (owner name : String)
  | key (name : String)
  deriving DecidableEq, Repr

def Access.text : Access → String
  | .field owner name => owner ++ "." ++ name
  | .method owner name => owner ++ "." ++ name ++ "()"
  | .key k => "[" ++ Text.quoted k ++ "]"

def Access.step : Access → String
  | .field _ name => "." ++ name
  | .method _ name => "." ++ name ++ "()"
  | .key k => "[" ++ Text.quoted k ++ "]"

inductive Argument where
  | constant (c : Constant)
  /-- Steps from the input; an absent step makes the argument null. -/
  | path (steps : List Access)
  | null
  deriving DecidableEq, Repr

def Argument.text : Argument → String
  | .constant c => c.text
  | .path steps => "input" ++ String.join (steps.map Access.step)
  | .null => "null"

end PathTemplate
