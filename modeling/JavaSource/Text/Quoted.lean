/-!
# Quoted literals

Java character and string literals. What lies outside printable ASCII is written as the escapes of its
UTF-16 units, so a literal is plain ASCII whatever its text.
-/

namespace JavaSource.Text

/-- The letter after the backslash in a short escape. -/
def escapeLetter? : Char → Option Char
  | '\x08' => some 'b'
  | '\t' => some 't'
  | '\n' => some 'n'
  | '\x0c' => some 'f'
  | '\r' => some 'r'
  | '"' => some '"'
  | '\'' => some '\''
  | '\\' => some '\\'
  | _ => none

def isPrintableAscii (c : Char) : Bool := 0x20 ≤ c.toNat && c.toNat ≤ 0x7e

/-- The UTF-16 code units of a character. -/
def units16 (c : Char) : List Nat :=
  if c.toNat < 0x10000 then [c.toNat]
  else [0xd800 + (c.toNat - 0x10000) / 0x400, 0xdc00 + (c.toNat - 0x10000) % 0x400]

def hexDigit (n : Nat) : Char :=
  if n < 10 then Char.ofNat (48 + n) else Char.ofNat (87 + n)

def unicodeEscape (u : Nat) : List Char :=
  ['\\', 'u', hexDigit (u / 0x1000 % 16), hexDigit (u / 0x100 % 16), hexDigit (u / 0x10 % 16),
    hexDigit (u % 16)]

/-- A quote needs no escape between two quotes of the other sort. -/
def isOtherQuote (delimiter c : Char) : Bool :=
  (delimiter = '"' && c = '\'') || (delimiter = '\'' && c = '"')

def quoteChar (delimiter c : Char) : List Char :=
  match escapeLetter? c with
  | some e => if isOtherQuote delimiter c then [c] else ['\\', e]
  | none => if isPrintableAscii c then [c] else (units16 c).flatMap unicodeEscape

def quoteChars (delimiter : Char) (cs : List Char) : List Char :=
  cs.flatMap (quoteChar delimiter)

@[simp] theorem quoteChars_nil (d : Char) : quoteChars d [] = [] := rfl

@[simp] theorem quoteChars_cons (d c : Char) (cs : List Char) :
    quoteChars d (c :: cs) = quoteChar d c ++ quoteChars d cs := by
  simp [quoteChars]

@[simp] theorem quoteChars_append (d : Char) (xs ys : List Char) :
    quoteChars d (xs ++ ys) = quoteChars d xs ++ quoteChars d ys := by
  simp [quoteChars]

def quoted (delimiter : Char) (text : String) : String :=
  String.ofList (delimiter :: quoteChars delimiter text.toList ++ [delimiter])

@[simp] theorem toList_quoted (d : Char) (s : String) :
    (quoted d s).toList = d :: quoteChars d s.toList ++ [d] := by
  simp [quoted]

end JavaSource.Text
