import AsmIndex.Text.Utf8

namespace AsmIndex.Percent

def hexDigit (n : Nat) : Char :=
  if n < 10 then Char.ofNat (0x30 + n) else Char.ofNat (0x41 + (n - 10))

def hexValue? (c : Char) : Option Nat :=
  if '0' ≤ c ∧ c ≤ '9' then some (c.toNat - 0x30)
  else if 'A' ≤ c ∧ c ≤ 'F' then some (c.toNat - 0x41 + 10)
  else if 'a' ≤ c ∧ c ≤ 'f' then some (c.toNat - 0x61 + 10)
  else none

def escape (b : UInt8) : List Char :=
  ['%', hexDigit (b.toNat / 16), hexDigit (b.toNat % 16)]

def encodeByte (escaped : UInt8 → Bool) (b : UInt8) : List Char :=
  if escaped b then escape b else [Char.ofNat b.toNat]

def encode (escaped : UInt8 → Bool) (bytes : Bytes) : List Char :=
  bytes.flatMap (encodeByte escaped)

def decode : List Char → Bytes
  | [] => []
  | '%' :: a :: b :: rest =>
    match hexValue? a, hexValue? b with
    | some high, some low => UInt8.ofNat (high * 16 + low) :: decode rest
    | _, _ => 0x25 :: decode (a :: b :: rest)
  | c :: rest => String.utf8EncodeChar c ++ decode rest

def isControl (b : UInt8) : Bool :=
  b < 0x20 || 0x7f ≤ b

def byteIn (chars : List Char) (b : UInt8) : Bool :=
  chars.any fun c => c.toNat == b.toNat

def escapedInFragment (b : UInt8) : Bool :=
  isControl b || byteIn [' ', '"', '<', '>', '\x60'] b

def escapedInQuery (special : Bool) (b : UInt8) : Bool :=
  isControl b || byteIn [' ', '"', '#', '<', '>'] b || (special && b == 0x27)

def escapedInPath (b : UInt8) : Bool :=
  escapedInFragment b || byteIn ['#', '?', '\x7b', '\x7d'] b

def escapedInName (b : UInt8) : Bool :=
  escapedInPath b || byteIn ['/', '%', '\\'] b

def escapedInUser (b : UInt8) : Bool :=
  escapedInPath b || byteIn ['/', ':', ';', '=', '@', '[', '\\', ']', '^', '|'] b

end AsmIndex.Percent
