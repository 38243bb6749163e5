import DocShell.Json.Basic
import DocShell.Number.Layout
import DocShell.Text.Enclosed
import DocShell.Text.Quoted

namespace DocShell.Json

/-! # Writing JSON

Compact text has no blanks at all. Pretty text gives each item and each member a
line of its own, indented by two spaces a level. -/

inductive Style
  | compact
  | pretty
deriving DecidableEq, Repr

namespace Style

def spacing (depth : Nat) : Style → Text.Spacing
  | .compact => .oneLine [] [',']
  | .pretty => .lines 2 depth

def colon : Style → List Char
  | .compact => [':']
  | .pretty => [':', ' ']

end Style

mutual

def write (style : Style) (depth : Nat) : Json → List Char
  | .null => "null".toList
  | .bool value => if value then "true".toList else "false".toList
  | .integer value => Text.ofInt value
  | .float value => value.jsonText
  | .string text => Text.quoted text
  | .array items => Text.enclosed '[' ']' (style.spacing depth) (writeItems style depth items)
  | .object members =>
      Text.enclosed '{' '}' (style.spacing depth) (writeMembers style depth members)

def writeItems (style : Style) (depth : Nat) : List Json → List (List Char)
  | [] => []
  | item :: rest => write style (depth + 1) item :: writeItems style depth rest

def writeMembers (style : Style) (depth : Nat) : List (String × Json) → List (List Char)
  | [] => []
  | (name, value) :: rest =>
      (Text.quoted name ++ style.colon ++ write style (depth + 1) value) ::
        writeMembers style depth rest

end

def compactText (json : Json) : String := String.ofList (json.write .compact 0)

def prettyText (json : Json) : String := String.ofList (json.write .pretty 0)

end DocShell.Json
