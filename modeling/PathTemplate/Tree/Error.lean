import PathTemplate.Span
import PathTemplate.Ty

namespace PathTemplate.Tree

inductive ResolveError where
  | unknownType (name : String) (span : Span)
  | unknownMember (owner name : String) (span : Span)
  | unknownMethod (owner name : String) (span : Span)
  | unknownFunction (name : String) (arity : Nat) (available : List Nat) (span : Span)
  | notNavigable (ty : Ty) (name : String) (span : Span)
  deriving DecidableEq, Repr

namespace ResolveError

def span : ResolveError → Span
  | .unknownType _ s => s
  | .unknownMember _ _ s => s
  | .unknownMethod _ _ s => s
  | .unknownFunction _ _ _ s => s
  | .notNavigable _ _ s => s

def name : ResolveError → String
  | .unknownType n _ => n
  | .unknownMember _ n _ => n
  | .unknownMethod _ n _ => n
  | .unknownFunction n _ _ _ => n
  | .notNavigable _ n _ => n

def message : ResolveError → String
  | .unknownType name _ => "unknown record type `" ++ name ++ "`"
  | .unknownMember owner name _ => "`" ++ owner ++ "` has no field or method `" ++ name ++ "`"
  | .unknownMethod owner name _ => "`" ++ owner ++ "` has no method `" ++ name ++ "`"
  | .unknownFunction name arity available _ =>
    "no function `" ++ name ++ "` taking " ++ toString arity ++ " argument(s)" ++
      (if available.isEmpty then ""
        else " (registered with " ++ ", ".intercalate (available.map toString) ++ " argument(s))")
  | .notNavigable ty name _ => "cannot look up `" ++ name ++ "` on a value of type " ++ ty.text

end ResolveError

inductive TypeError where
  | incompatibleDefault (default : String) (ty : Ty) (span : Span)
  | notPrintable (ty : Ty) (span : Span)
  | notNumeric (ty : Ty) (span : Span)
  | divisionByZero (span : Span)
  | operandOutOfRange (operand : Int64) (ty : Ty) (span : Span)
  | invalidCast (source target : Ty) (span : Span)
  | invalidArgument (span : Span)
  deriving DecidableEq, Repr

namespace TypeError

def span : TypeError → Span
  | .incompatibleDefault _ _ s => s
  | .notPrintable _ s => s
  | .notNumeric _ s => s
  | .divisionByZero s => s
  | .operandOutOfRange _ _ s => s
  | .invalidCast _ _ s => s
  | .invalidArgument s => s

def message : TypeError → String
  | .incompatibleDefault default ty _ =>
    "default " ++ default ++ " is not compatible with " ++ ty.text
  | .notPrintable ty _ => "a value of type " ++ ty.text ++ " cannot be printed"
  | .notNumeric ty _ => "arithmetic needs a numeric value, found " ++ ty.text
  | .divisionByZero _ => "integral division by zero"
  | .operandOutOfRange operand ty _ =>
    "operand " ++ toString operand.toInt ++ " does not fit " ++ ty.text
  | .invalidCast source target _ => "cannot cast " ++ source.text ++ " to " ++ target.text
  | .invalidArgument _ => "function arguments must be literals or plain paths"

end TypeError

inductive BuildError where
  | resolve (e : ResolveError)
  | type (e : TypeError)
  deriving DecidableEq, Repr

namespace BuildError

def span : BuildError → Span
  | .resolve e => e.span
  | .type e => e.span

def message : BuildError → String
  | .resolve e => e.message
  | .type e => e.message

end BuildError

end PathTemplate.Tree
