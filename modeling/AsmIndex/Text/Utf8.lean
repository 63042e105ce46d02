namespace AsmIndex

abbrev Bytes := List UInt8

namespace Utf8

def encode (s : List Char) : Bytes :=
  s.flatMap String.utf8EncodeChar

def encodeString (s : String) : Bytes :=
  encode s.toList

def replacement : Char := '�'

def isContinuation (b : UInt8) : Bool :=
  0x80 ≤ b && b ≤ 0xbf

def isSecondOfThree (first second : UInt8) : Bool :=
  if first == 0xe0 then 0xa0 ≤ second && second ≤ 0xbf
  else if first == 0xed then 0x80 ≤ second && second ≤ 0x9f
  else isContinuation second

def isSecondOfFour (first second : UInt8) : Bool :=
  if first == 0xf0 then 0x90 ≤ second && second ≤ 0xbf
  else if first == 0xf4 then 0x80 ≤ second && second ≤ 0x8f
  else isContinuation second

def bits (b : UInt8) (count : Nat) : Nat :=
  b.toNat % Nat.pow 2 count

def two (a b : UInt8) : Char :=
  Char.ofNat (bits a 5 * 64 + bits b 6)

def three (a b c : UInt8) : Char :=
  Char.ofNat (bits a 4 * 4096 + bits b 6 * 64 + bits c 6)

def four (a b c d : UInt8) : Char :=
  Char.ofNat (bits a 3 * 262144 + bits b 6 * 4096 + bits c 6 * 64 + bits d 6)

def decode : Bytes → List Char
  | [] => []
  | a :: rest =>
    if a < 0x80 then Char.ofNat a.toNat :: decode rest
    else if 0xc2 ≤ a && a ≤ 0xdf then
      match rest with
      | b :: rest =>
        if isContinuation b then two a b :: decode rest else replacement :: decode (b :: rest)
      | [] => [replacement]
    else if 0xe0 ≤ a && a ≤ 0xef then
      match rest with
      | b :: rest =>
        if isSecondOfThree a b then
          match rest with
          | c :: rest =>
            if isContinuation c then three a b c :: decode rest
            else replacement :: decode (c :: rest)
          | [] => [replacement]
        else replacement :: decode (b :: rest)
      | [] => [replacement]
    else if 0xf0 ≤ a && a ≤ 0xf4 then
      match rest with
      | b :: rest =>
        if isSecondOfFour a b then
          match rest with
          | c :: rest =>
            if isContinuation c then
              match rest with
              | d :: rest =>
                if isContinuation d then four a b c d :: decode rest
                else replacement :: decode (d :: rest)
              | [] => [replacement]
            else replacement :: decode (c :: rest)
          | [] => [replacement]
        else replacement :: decode (b :: rest)
      | [] => [replacement]
    else replacement :: decode rest

def decodeString (bytes : Bytes) : String :=
  String.ofList (decode bytes)

def decode? (bytes : Bytes) : Option (List Char) :=
  let text := decode bytes
  if encode text = bytes then some text else none

end Utf8

end AsmIndex
