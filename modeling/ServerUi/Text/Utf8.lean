/-! # Characters of a byte string

Bytes are read as UTF-8 without loss: a well-formed sequence is a character, and a byte that
starts no well-formed sequence is kept as a stray byte.  An ASCII byte always stands for itself,
so text can be cut at ASCII delimiters before it is known to be well formed.
-/

namespace ServerUi.Text

/-- A character, or a byte that belongs to none. -/
inductive Symbol where
  | char (c : Char)
  | stray (byte : UInt8)
deriving DecidableEq, Repr

/-- The character with a code point that is neither a surrogate nor too large. -/
def scalar? (n : Nat) : Option Char := if n.isValidChar then some (Char.ofNat n) else none

/-- Does the byte continue a sequence? -/
def isContinuation (b : UInt8) : Bool := 0x80 ≤ b && b < 0xC0

/-- The character at the front of a byte string and the number of continuation bytes it takes. -/
def leading? : List UInt8 → Option (Char × Nat)
  | [] => none
  | a :: rest =>
    let low (b : UInt8) := b.toNat % 64
    if a < 0x80 then (scalar? a.toNat).map (·, 0)
    else if a < 0xC2 then none
    else if a < 0xE0 then
      match rest with
      | b :: _ =>
        if isContinuation b then (scalar? (a.toNat % 32 * 64 + low b)).map (·, 1) else none
      | _ => none
    else if a < 0xF0 then
      match rest with
      | b :: c :: _ =>
        let n := a.toNat % 16 * 4096 + low b * 64 + low c
        if isContinuation b && isContinuation c && 0x800 ≤ n then (scalar? n).map (·, 2) else none
      | _ => none
    else if a < 0xF5 then
      match rest with
      | b :: c :: d :: _ =>
        let n := a.toNat % 8 * 262144 + low b * 4096 + low c * 64 + low d
        if isContinuation b && isContinuation c && isContinuation d && 0x10000 ≤ n then
          (scalar? n).map (·, 3)
        else none
      | _ => none
    else none

/-- The symbols of a byte string whose first `skip` bytes belong to a character already read. -/
def symbolsAfter : Nat → List UInt8 → List Symbol
  | _, [] => []
  | skip + 1, _ :: rest => symbolsAfter skip rest
  | 0, b :: rest =>
    match leading? (b :: rest) with
    | some (c, skip) => .char c :: symbolsAfter skip rest
    | none => .stray b :: symbolsAfter 0 rest

def symbols (bytes : List UInt8) : List Symbol := symbolsAfter 0 bytes

/-- The symbols of a text: its characters, none of them stray. -/
def symbolsOf (s : String) : List Symbol := s.toList.map .char

def bytesOf (s : String) : List UInt8 := s.toUTF8.toList

end ServerUi.Text
