/-
# Text of structured values

Values are shown by their name and parts: a record as its name with named
fields in braces, a wrapped value in parentheses after its name, an absent
value as `None`, and a list in brackets.
-/

namespace FirstFit
namespace Text

/-- Parts separated by a comma and a blank. -/
def commas (parts : List String) : String := ", ".intercalate parts

def record (name : String) (fields : List (String × String)) : String :=
  name ++ " \x7b " ++ commas (fields.map fun f => f.1 ++ ": " ++ f.2) ++ " \x7d"

def tuple (name content : String) : String := name ++ "(" ++ content ++ ")"

def list (parts : List String) : String := "[" ++ commas parts ++ "]"

def option : Option String → String
  | none => "None"
  | some content => tuple "Some" content

end Text
end FirstFit
