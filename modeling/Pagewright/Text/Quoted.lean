import Pagewright.Text.Unseen

/-!
# Texts as messages quote them

In a message a text stands between double quotes. Quotes and backslashes within it are escaped,
the common control characters by their letters, and everything else that does not show by its code
point in base sixteen (`\u{200b}`). A log shows texts as they are, but for the characters that
steer a terminal.
-/

namespace Pagewright

namespace Text

/-- The digits of a number in base sixteen, in lower case. -/
def hexDigits (n : Nat) : List Char := Nat.toDigits 16 n

/-- A character as a message quotes it. -/
def shown (c : Char) : List Char :=
  if c = '"' then ['\\', '"']
  else if c = '\\' then ['\\', '\\']
  else if c = '\t' then ['\\', 't']
  else if c = '\r' then ['\\', 'r']
  else if c = '\n' then ['\\', 'n']
  else if c = '\x00' then ['\\', '0']
  else if isUnseen c then ['\\', 'u', '\x7b'] ++ hexDigits c.toNat ++ ['\x7d']
  else [c]

/-- A text as a message quotes it. -/
def quotedForMessage (s : String) : String :=
  "\"" ++ String.ofList (s.toList.flatMap shown) ++ "\""

/-- A character as a log shows it. Those that start or are commands of a terminal are escaped. -/
def logged (c : Char) : List Char :=
  if ['\x07', '\x08', '\x0c', '\x1b', '\x7f'].contains c then
    ['\\', 'x'] ++ (if c.toNat < 16 then ['0'] else []) ++ hexDigits c.toNat
  else if 0x80 ≤ c.toNat ∧ c.toNat ≤ 0x9f then
    ['\\', 'u', '\x7b'] ++ hexDigits c.toNat ++ ['\x7d']
  else [c]

/-- A text as a log shows it. -/
def forLog (s : String) : String := String.ofList (s.toList.flatMap logged)

end Text

end Pagewright
