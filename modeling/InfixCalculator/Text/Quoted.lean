import InfixCalculator.Text.Unprintable

/-!
# Quoted texts

A text is quoted between double quotes. Quotes and backslashes in it, tabs, line ends and NUL are
written with a backslash, every other unprintable character as its code point in hexadecimal,
`\u{1b}`. All other characters stand for themselves, the single quote among them.
-/

namespace InfixCalculator.Text

/-- A code point in lower-case hexadecimal, without padding. -/
def escapeCodePoint (c : Char) : List Char :=
  '\\' :: 'u' :: '\x7b' :: Nat.toDigits 16 c.toNat ++ ['\x7d']

/-- A character as it stands between quotes. -/
def escapeChar (c : Char) : List Char :=
  match c with
  | '"' => ['\\', '"']
  | '\\' => ['\\', '\\']
  | '\t' => ['\\', 't']
  | '\r' => ['\\', 'r']
  | '\n' => ['\\', 'n']
  | '\x00' => ['\\', '0']
  | _ => if isUnprintable c then escapeCodePoint c else [c]

def quote (text : String) : String :=
  String.ofList ('"' :: text.toList.flatMap escapeChar ++ ['"'])

/-- A list of texts, each between quotes, in brackets. -/
def quoteList (texts : List String) : String :=
  "[" ++ ", ".intercalate (texts.map quote) ++ "]"

end InfixCalculator.Text
