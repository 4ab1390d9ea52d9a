import KeyedStore.Text.Printable

/-! Text between quotes for messages: quotes, backslashes and common controls have
short escapes, and characters that cannot be seen are given by number. -/

namespace KeyedStore

def numberedChar (char : Char) : List Char :=
  ['\\', 'u', '\x7b'] ++ Nat.toDigits 16 char.toNat ++ ['\x7d']

def readableChar (char : Char) : List Char :=
  if char = '"' then ['\\', '"']
  else if char = '\\' then ['\\', '\\']
  else if char = '\x00' then ['\\', '0']
  else if char = '\t' then ['\\', 't']
  else if char = '\n' then ['\\', 'n']
  else if char = '\r' then ['\\', 'r']
  else if isHidden char then numberedChar char
  else [char]

def quoteReadable (text : String) : String :=
  String.ofList ('"' :: (text.toList.flatMap readableChar ++ ['"']))

end KeyedStore
