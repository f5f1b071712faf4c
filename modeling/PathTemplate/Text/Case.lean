import PathTemplate.Text.Blank
import PathTemplate.Text.CaseTable

/-!
Upper and lower case of whole texts. A capital sigma at the end of a word gets its final form.
-/

namespace PathTemplate.Text

namespace Case

/-- The characters that replace `c`, by a table of expansions and then one of runs. -/
def mapChar (expansions : List (Nat × List Nat)) (runs : List Run) (c : Char) : List Char :=
  match expansions.find? (·.1 == c.toNat) with
  | some (_, codes) => codes.map Char.ofNat
  | none =>
    match runs.find? (·.covers c.toNat) with
    | some r => [Char.ofNat ((c.toNat : Int) + r.offset).toNat]
    | none => [c]

def leadsToCased (cs : List Char) : Bool :=
  match cs.dropWhile (within caseIgnorable) with
  | [] => false
  | c :: _ => within casedLetters c

def capitalSigma : Char := Char.ofNat 0x3a3

/-- Lower case of one character between the text `before` it, last character first, and `after`. -/
def lowerAt (before : List Char) (c : Char) (after : List Char) : List Char :=
  if c = capitalSigma then
    if leadsToCased before && !leadsToCased after then [Char.ofNat 0x3c2] else [Char.ofNat 0x3c3]
  else mapChar lowerExpansions lowerRuns c

def lowerOnto (out before : List Char) : List Char → List Char
  | [] => out.reverse
  | c :: rest => lowerOnto ((lowerAt before c rest).reverse ++ out) (c :: before) rest

end Case

def upper (s : String) : String :=
  String.ofList (s.toList.flatMap (Case.mapChar Case.upperExpansions Case.upperRuns))

def lower (s : String) : String := String.ofList (Case.lowerOnto [] [] s.toList)

end PathTemplate.Text
