/-! UTF-8: the bytes of a text, and a reading of bytes that marks each broken piece. -/

namespace LogDesk.Text

def charBytes (c : Char) : List UInt8 := String.utf8EncodeChar c

def utf8 (cs : List Char) : List UInt8 := cs.flatMap charBytes

def isTail (b : UInt8) : Bool := 0x80 ≤ b && b ≤ 0xBF

def tailBits (b : UInt8) : Nat := b.toNat % 64

/-- The least and the greatest second byte after a lead byte of three or four. -/
def secondRange (lead : UInt8) : UInt8 × UInt8 :=
  if lead == 0xE0 then (0xA0, 0xBF)
  else if lead == 0xED then (0x80, 0x9F)
  else if lead == 0xF0 then (0x90, 0xBF)
  else if lead == 0xF4 then (0x80, 0x8F)
  else (0x80, 0xBF)

def isSecond (lead b : UInt8) : Bool := (secondRange lead).1 ≤ b && b ≤ (secondRange lead).2

/-- The characters that bytes spell. Each longest beginning of a character that is then broken off,
and each byte that begins none, counts as one `none`. -/
def readUtf8 : List UInt8 → List (Option Char)
  | [] => []
  | a :: r =>
    if a < 0x80 then some (Char.ofNat a.toNat) :: readUtf8 r
    else if 0xC2 ≤ a && a ≤ 0xDF then
      match r with
      | b :: r =>
        if isTail b then some (Char.ofNat (a.toNat % 32 * 64 + tailBits b)) :: readUtf8 r
        else none :: readUtf8 (b :: r)
      | [] => [none]
    else if 0xE0 ≤ a && a ≤ 0xEF then
      match r with
      | b :: r =>
        if isSecond a b then
          match r with
          | c :: r =>
            if isTail c then
              some (Char.ofNat ((a.toNat % 16 * 64 + tailBits b) * 64 + tailBits c)) :: readUtf8 r
            else none :: readUtf8 (c :: r)
          | [] => [none]
        else none :: readUtf8 (b :: r)
      | [] => [none]
    else if 0xF0 ≤ a && a ≤ 0xF4 then
      match r with
      | b :: r =>
        if isSecond a b then
          match r with
          | c :: r =>
            if isTail c then
              match r with
              | d :: r =>
                if isTail d then
                  some (Char.ofNat
                    (((a.toNat % 8 * 64 + tailBits b) * 64 + tailBits c) * 64 + tailBits d))
                    :: readUtf8 r
                else none :: readUtf8 (d :: r)
              | [] => [none]
            else none :: readUtf8 (c :: r)
          | [] => [none]
        else none :: readUtf8 (b :: r)
      | [] => [none]
    else none :: readUtf8 r

def ofUtf8? (bs : List UInt8) : Option (List Char) := (readUtf8 bs).mapM id

/-- The text of any bytes, each broken piece a replacement character. -/
def ofUtf8Lossy (bs : List UInt8) : List Char := (readUtf8 bs).map (·.getD '\uFFFD')

end LogDesk.Text
