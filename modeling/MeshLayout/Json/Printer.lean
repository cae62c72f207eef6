import MeshLayout.Json

/-!
# Writing JSON

Writes a document on one line, without blanks between its parts. Quotes, backslashes and
control characters in texts are escaped; all other characters stand for themselves.
-/

set_option autoImplicit false

namespace MeshLayout.Json

namespace Printer

def char (out : String) (c : Char) : String :=
  if c = '"' then out ++ "\\\""
  else if c = '\\' then out ++ "\\\\"
  else if c < ' ' then
    let digit (n : Nat) := (Nat.digitChar n).toString
    out ++ "\\u00" ++ digit (c.toNat / 16) ++ digit (c.toNat % 16)
  else out.push c

def text (out value : String) : String := (value.toList.foldl char (out.push '"')).push '"'

mutual

def value (out : String) : Json → String
  | null => out ++ "null"
  | bool true => out ++ "true"
  | bool false => out ++ "false"
  | integer n => out ++ toString n
  | decimal written => out ++ written
  | .text value => text out value
  | list [] => out ++ "[]"
  | list (item :: rest) => (items (value (out.push '[') item) rest).push ']'
  | record [] => (out.push '\x7b').push '\x7d'
  | record ((name, first) :: rest) =>
    let out := (text (out.push '\x7b') name).push ':'
    (members (value out first) rest).push '\x7d'

def items (out : String) : List Json → String
  | [] => out
  | item :: rest => items (value (out.push ',') item) rest

def members (out : String) : List (String × Json) → String
  | [] => out
  | (name, first) :: rest =>
    members (value ((text (out.push ',') name).push ':') first) rest

end

end Printer

def render (value : Json) : String := Printer.value "" value

end MeshLayout.Json
