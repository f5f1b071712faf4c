import PathTemplate.Routine.Basic

namespace PathTemplate.Routine

def line (level : Nat) (text : String) : String :=
  String.ofList (List.replicate (4 * level) ' ') ++ text ++ "\n"

def tempName (temps : List String) (t : Nat) : String := temps.getD t "?"

def sinkName (n : Nat) : String := if n = 0 then "acc" else "acc_" ++ toString n

def accessText (src : String) : Access → String
  | .field _ name => src ++ "." ++ name
  | .method _ name => src ++ "." ++ name ++ "()"
  | .key k => src ++ ".get(" ++ Text.quoted k ++ ")"

def guardText (value : String) : GuardKind → String
  | .optional => "if let Some(" ++ value ++ ") = " ++ value ++ " \x7b"
  | .nullable => "if !" ++ value ++ ".is_null() \x7b"

def emitText (sink value : String) : EmitCheck → String
  | .unchecked => sink ++ ".accept(" ++ value ++ ");"
  | .skipAbsent =>
    "if !" ++ value ++ ".is_null() \x7b " ++ sink ++ ".accept(" ++ value ++ "); \x7d"
  | .default d => sink ++ ".accept(" ++ value ++ ".or(" ++ d.text ++ "));"

mutual

def stmtText (temps : List String) (level : Nat) (sink : Nat) : Stmt → String
  | .text s => line level (sinkName sink ++ ".accept_str(" ++ Text.quoted s ++ ");")
  | .load dst src access =>
    line level ("let " ++ tempName temps dst ++ " = " ++ accessText (tempName temps src) access ++
      ";")
  | .math dst src op operand ty =>
    line level ("let " ++ tempName temps dst ++ ": " ++ ty.text ++ " = " ++ tempName temps src ++
      " " ++ op.text ++ " " ++ operand.text ++ ";")
  | .cast dst src target =>
    line level ("let " ++ tempName temps dst ++ " = " ++ tempName temps src ++ " as " ++
      target.text ++ ";")
  | .call dst function args =>
    line level ("let " ++ tempName temps dst ++ " = " ++ function ++ "(" ++
      ", ".intercalate (args.map Argument.text) ++ ");")
  | .ifPresent guard value present otherwise =>
    line level (guardText (tempName temps value) guard) ++
      blockText temps (level + 1) sink present ++
      (if otherwise.isEmpty then ""
        else line level "\x7d else \x7b" ++ blockText temps (level + 1) sink otherwise) ++
      line level "\x7d"
  | .emit value check => line level (emitText (sinkName sink) (tempName temps value) check)
  | .emitDefault d => line level (sinkName sink ++ ".accept(" ++ d.text ++ ");")
  | .capture inner parent body =>
    line level ("let mut " ++ sinkName inner ++ " = " ++ sinkName parent ++ ".new_instance();") ++
      blockText temps level inner body ++
      line level (sinkName parent ++ ".accept_acc(&" ++ sinkName inner ++ ");")
  | .firstNonEmpty inner parent alternatives otherwise =>
    line level ("let mut " ++ sinkName inner ++ " = " ++ sinkName parent ++ ".new_instance();") ++
      line level ("'" ++ sinkName inner ++ ": \x7b") ++
      alternativesText temps (level + 1) inner parent alternatives ++
      blockText temps (level + 1) parent otherwise ++
      line level "\x7d"
  | .missing name => line level ("// not found: " ++ name)

def blockText (temps : List String) (level : Nat) (sink : Nat) : List Stmt → String
  | [] => ""
  | s :: ss => stmtText temps level sink s ++ blockText temps level sink ss

def alternativesText (temps : List String) (level : Nat) (inner parent : Nat) :
    List (List Stmt) → String
  | [] => ""
  | b :: bs =>
    line level (sinkName inner ++ ".reset();") ++
      blockText temps level inner b ++
      line level ("if !" ++ sinkName inner ++ ".is_empty() \x7b " ++ sinkName parent ++
        ".accept_acc(&" ++ sinkName inner ++ "); break '" ++ sinkName inner ++ "; \x7d") ++
      alternativesText temps level inner parent bs

end

def listing (r : Routine) : String :=
  line 0 ("// " ++ r.input ++ " -> " ++ r.sink) ++
    line 0 ("fn " ++ r.name ++ "(input: &" ++ r.input ++ ", params: &Params, acc: &mut " ++
      r.sink ++ ") \x7b") ++
    blockText r.temps 1 0 r.body ++
    line 0 "\x7d"

end PathTemplate.Routine
