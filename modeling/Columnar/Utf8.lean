/-
Text as bytes: the UTF-8 form of a string, and reading it back.

`decode` accepts well-formed sequences only. Where it stops, its fault tells
how many bytes before the fault were sound, and either how many bytes belong
to the bad sequence or that the bytes end inside one.
-/

namespace Columnar

/-- Bytes in memory order. -/
abbrev Bytes := List UInt8

namespace Utf8

/-- Why bytes are not text. -/
inductive Fault where
  /-- The bad sequence of this many bytes begins at the offset. -/
  | invalid (length offset : Nat)
  /-- The bytes end inside the sequence that begins at the offset. -/
  | incomplete (offset : Nat)
  deriving DecidableEq, Repr

def Fault.message : Fault → String
  | invalid length offset => s!"invalid utf-8 sequence of {length} bytes from index {offset}"
  | incomplete offset => s!"incomplete utf-8 byte sequence from index {offset}"

/-- The UTF-8 form of a text. -/
def encode (s : String) : Bytes := s.toList.flatMap String.utf8EncodeChar

/-- The six payload bits of a continuation byte. -/
def payload (b : UInt8) : Nat := b.toNat % 64

def isContinuation (b : UInt8) : Bool := 0x80 ≤ b && b ≤ 0xBF

/-- The bytes that may follow a lead byte of a three-byte sequence: the
overlong forms and the surrogates are shut out. -/
def follows3 (lead next : UInt8) : Bool :=
  if lead = 0xE0 then 0xA0 ≤ next && next ≤ 0xBF
  else if lead = 0xED then 0x80 ≤ next && next ≤ 0x9F
  else isContinuation next

/-- The bytes that may follow a lead byte of a four-byte sequence: the
overlong forms and the code points past U+10FFFF are shut out. -/
def follows4 (lead next : UInt8) : Bool :=
  if lead = 0xF0 then 0x90 ≤ next && next ≤ 0xBF
  else if lead = 0xF4 then 0x80 ≤ next && next ≤ 0x8F
  else isContinuation next

/-- The characters of `bytes`, which begin at the offset `offset`. -/
def decodeFrom (offset : Nat) : Bytes → Except Fault (List Char)
  | [] => .ok []
  | a :: rest =>
    if a < 0x80 then do
      return Char.ofNat a.toNat :: (← decodeFrom (offset + 1) rest)
    else if a < 0xC2 then .error (.invalid 1 offset)
    else if a < 0xE0 then
      match rest with
      | [] => .error (.incomplete offset)
      | b :: rest =>
        if !isContinuation b then .error (.invalid 1 offset)
        else do
          return Char.ofNat (a.toNat % 32 * 64 + payload b) :: (← decodeFrom (offset + 2) rest)
    else if a < 0xF0 then
      match rest with
      | [] => .error (.incomplete offset)
      | b :: rest =>
        if !follows3 a b then .error (.invalid 1 offset)
        else match rest with
          | [] => .error (.incomplete offset)
          | c :: rest =>
            if !isContinuation c then .error (.invalid 2 offset)
            else do
              return Char.ofNat ((a.toNat % 16 * 64 + payload b) * 64 + payload c) ::
                (← decodeFrom (offset + 3) rest)
    else if a < 0xF5 then
      match rest with
      | [] => .error (.incomplete offset)
      | b :: rest =>
        if !follows4 a b then .error (.invalid 1 offset)
        else match rest with
          | [] => .error (.incomplete offset)
          | c :: rest =>
            if !isContinuation c then .error (.invalid 2 offset)
            else match rest with
              | [] => .error (.incomplete offset)
              | d :: rest =>
                if !isContinuation d then .error (.invalid 3 offset)
                else do
                  return Char.ofNat
                      (((a.toNat % 8 * 64 + payload b) * 64 + payload c) * 64 + payload d) ::
                    (← decodeFrom (offset + 4) rest)
    else .error (.invalid 1 offset)

/-- The text whose UTF-8 form the bytes are. -/
def decode (bytes : Bytes) : Except Fault String := do
  return String.ofList (← decodeFrom 0 bytes)

end Utf8

end Columnar
