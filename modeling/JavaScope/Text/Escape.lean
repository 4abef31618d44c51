/-
# Escaped text

Characters and strings are shown between quotes with everything but printable ASCII
escaped.  A single byte that should have been a known tag is shown as the character of its
number, with only control characters and the two invisible Latin-1 characters escaped.
-/

namespace JavaScope.Text

/-- A number in hexadecimal digits, `width` of them at least. -/
def hex (width n : Nat) : String :=
  let digits := Nat.toDigits 16 n
  String.ofList (List.replicate (width - digits.length) '0' ++ digits)

/-- `\u` and the number of the character in braces, in as few hexadecimal digits as it
has. -/
def codePoint (c : Char) : List Char :=
  '\\' :: 'u' :: '\x7b' :: (Nat.toDigits 16 c.toNat ++ ['\x7d'])

/-- The escaped form of a character inside quotes. -/
def escapeChar (c : Char) : List Char :=
  if c = '\t' then ['\\', 't']
  else if c = '\r' then ['\\', 'r']
  else if c = '\n' then ['\\', 'n']
  else if c = '\'' ∨ c = '"' ∨ c = '\\' then ['\\', c]
  else if ' ' ≤ c ∧ c ≤ '~' then [c]
  else codePoint c

/-- A text with every character escaped. -/
def escape (s : String) : String :=
  String.ofList (s.toList.flatMap escapeChar)

/-- Latin-1 characters that would not show: the controls, the no-break space and the soft
hyphen. -/
def isHiddenLatin1 (c : Char) : Bool :=
  c.toNat < 0x20 || (0x7F ≤ c.toNat && c.toNat ≤ 0xA0) || c.toNat = 0xAD

/-- A byte shown as a quoted character. -/
def quoteByte (b : UInt8) : String :=
  let c := Char.ofNat b.toNat
  let shown :=
    if c = '\x00' then ['\\', '0']
    else if c = '\t' then ['\\', 't']
    else if c = '\r' then ['\\', 'r']
    else if c = '\n' then ['\\', 'n']
    else if c = '\'' ∨ c = '\\' then ['\\', c]
    else if isHiddenLatin1 c then codePoint c
    else [c]
  String.ofList ('\'' :: (shown ++ ['\'']))

end JavaScope.Text
