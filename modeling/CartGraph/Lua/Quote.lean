/-!
# Lua strings

Backslash, quote, the usual control characters and the null character have escapes of their own;
every other control character is written by its code in three decimal digits.
-/
namespace CartGraph.Lua

/-- Three decimal digits. -/
def code3 (n : Nat) : List Char :=
  [Nat.digitChar (n / 100), Nat.digitChar (n / 10 % 10), Nat.digitChar (n % 10)]

def escapeChar (c : Char) : List Char :=
  if c == '\\' then ['\\', '\\']
  else if c == '"' then ['\\', '"']
  else if c == '\n' then ['\\', 'n']
  else if c == '\r' then ['\\', 'r']
  else if c == '\t' then ['\\', 't']
  else if c.toNat == 0 then ['\\', '0']
  else if c.toNat < 32 || c.toNat == 127 then '\\' :: code3 c.toNat
  else [c]

/-- The double-quoted literal of a text. -/
def quote (s : String) : String :=
  String.ofList ('"' :: s.toList.flatMap escapeChar ++ ['"'])

end CartGraph.Lua
