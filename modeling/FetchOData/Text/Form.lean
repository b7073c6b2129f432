namespace FetchOData.Text

def hexDigit (n : Nat) : Char :=
  if n < 10 then Char.ofNat (0x30 + n) else Char.ofNat (0x61 + (n - 10))

/-- Characters that stand for themselves in an encoded text. -/
def isPlain (c : Char) : Bool :=
  c.isAlphanum || c == '*' || c == '-' || c == '.' || c == '_' || c == '!' || c == '(' || c == ')'

def encodeByte (b : UInt8) : List Char :=
  ['%', hexDigit (b.toNat / 16), hexDigit (b.toNat % 16)]

/-- A space becomes a plus sign, every other character that is not plain the escapes of its
UTF-8 bytes. -/
def encodeChar (c : Char) : List Char :=
  if isPlain c then [c]
  else if c = ' ' then ['+']
  else (String.utf8EncodeChar c).flatMap encodeByte

/-- The form encoding of a text. -/
def encode (s : String) : String :=
  String.ofList (s.toList.flatMap encodeChar)

def doubleQuote (c : Char) : List Char :=
  if c = '\x27' then ['\x27', '\x27'] else [c]

/-- A text between single quotes, its own quotes doubled and the whole encoded. -/
def quoted (s : String) : String :=
  "'" ++ encode (String.ofList (s.toList.flatMap doubleQuote)) ++ "'"

end FetchOData.Text
