import Archon.Lib.OrdMap

/-! Debug texts. A string stands in quotes with what cannot be seen escaped; options,
lists, maps and records are written out of the texts of what they hold. -/
namespace DebugText

/-- Controls, blanks other than the space, and the marks that only shape the text around
them. The tables of combining and of unassigned characters are left out. -/
def isUnseen (c : Char) : Bool :=
  let n := c.toNat
  n < 0x20 || (0x7F ≤ n && n ≤ 0xA0) || n = 0xAD || n = 0x1680 || (0x2000 ≤ n && n ≤ 0x200F) ||
    (0x2028 ≤ n && n ≤ 0x202F) || (0x205F ≤ n && n ≤ 0x206F) || n = 0x3000 || n = 0xFEFF

def escaped (c : Char) : String :=
  if c = '"' then "\\\""
  else if c = '\\' then "\\\\"
  else if c = '\t' then "\\t"
  else if c = '\n' then "\\n"
  else if c = '\r' then "\\r"
  else if c.toNat = 0 then "\\0"
  else if isUnseen c then "\\u\x7b" ++ String.ofList (Nat.toDigits 16 c.toNat) ++ "\x7d"
  else c.toString

def quoted (text : String) : String := "\"" ++ String.join (text.toList.map escaped) ++ "\""

def optional {α : Type} (shown : α → String) : Option α → String
  | none => "None"
  | some a => "Some(" ++ shown a ++ ")"

def listed {α : Type} (shown : α → String) (items : List α) : String :=
  "[" ++ ", ".intercalate (items.map shown) ++ "]"

/-- Names and texts in braces. -/
def braced (fields : List (String × String)) : String :=
  ", ".intercalate (fields.map fun field => field.1 ++ ": " ++ field.2)

def mapped {α β : Type} [Ord α] [Std.TransOrd α] (key : α → String) (value : β → String)
    (items : OrdMap α β) : String :=
  "\x7b" ++ braced (items.toList.map fun item => (key item.1, value item.2)) ++ "\x7d"

def record (name : String) (fields : List (String × String)) : String :=
  name ++ " \x7b " ++ braced fields ++ " \x7d"

example : quoted "a\"\t\x07é" = "\"a\\\"\\t\\u\x7b7\x7dé\"" := by decide +kernel

end DebugText
