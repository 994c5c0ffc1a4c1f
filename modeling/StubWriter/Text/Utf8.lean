import StubWriter.Text.Quoted

/-!
# Decoding UTF-8

A text is decoded as a whole. When the bytes are no UTF-8, the fault names the first bytes that
cannot be decoded: a byte that starts nothing, a lead byte with the continuation bytes that still
fit it, or a sequence that the end of the data cuts off.
-/

namespace StubWriter.Text

/-- The name of the encoding. -/
def utf8Name : String := "utf-8"

inductive Utf8Reason where
  | invalidStart
  | invalidContinuation
  | truncated
  deriving DecidableEq, Repr

/-- The bytes from `start` that cannot be decoded: `lead` and the `more` bytes after it. -/
structure Utf8Fault where
  start : Nat
  lead : UInt8
  more : Nat
  reason : Utf8Reason
  deriving DecidableEq, Repr

def Utf8Reason.message : Utf8Reason → String
  | .invalidStart => "invalid start byte"
  | .invalidContinuation => "invalid continuation byte"
  | .truncated => "unexpected end of data"

def Utf8Fault.message (f : Utf8Fault) : String :=
  let place :=
    if f.more == 0 then
      s!"byte 0x{String.ofList (hexDigits 2 f.lead.toNat)} in position {f.start}"
    else s!"bytes in position {f.start}-{f.start + f.more}"
  s!"'{utf8Name}' codec can't decode {place}: {f.reason.message}"

/-- The ranges of the continuation bytes that a lead byte asks for; none if it starts nothing. -/
def continuationRanges? (lead : UInt8) : Option (List (UInt8 × UInt8)) :=
  let tail := (0x80, 0xBF)
  if lead < 0x80 then some []
  else if lead < 0xC2 then none
  else if lead < 0xE0 then some [tail]
  else if lead == 0xE0 then some [(0xA0, 0xBF), tail]
  else if lead == 0xED then some [(0x80, 0x9F), tail]
  else if lead < 0xF0 then some [tail, tail]
  else if lead == 0xF0 then some [(0x90, 0xBF), tail, tail]
  else if lead < 0xF4 then some [tail, tail, tail]
  else if lead == 0xF4 then some [(0x80, 0x8F), tail, tail]
  else none

/-- How far the bytes follow the ranges: their number, and why they stop if they do. -/
def followRanges : List (UInt8 × UInt8) → List UInt8 → Nat × Option Utf8Reason
  | [], _ => (0, none)
  | _ :: _, [] => (0, some .truncated)
  | r :: ranges, b :: bytes =>
    if r.1 ≤ b && b ≤ r.2 then
      let (n, reason) := followRanges ranges bytes
      (n + 1, reason)
    else (0, some .invalidContinuation)

/-- The first fault of the bytes that start at position `start`; `skip` of them belong to a
character already read. -/
def firstFault? (start skip : Nat) : List UInt8 → Option Utf8Fault
  | [] => none
  | b :: bytes =>
    match skip with
    | k + 1 => firstFault? (start + 1) k bytes
    | 0 =>
      match continuationRanges? b with
      | none => some ⟨start, b, 0, .invalidStart⟩
      | some ranges =>
        match followRanges ranges bytes with
        | (n, some reason) => some ⟨start, b, n, reason⟩
        | (n, none) => firstFault? (start + 1) n bytes

/-- The text that the bytes spell, or the first fault. -/
def decodeUtf8 (bytes : ByteArray) : Except Utf8Fault String :=
  match String.fromUTF8? bytes with
  | some text => .ok text
  | none => .error ((firstFault? 0 0 bytes.toList).getD ⟨0, 0, 0, .invalidStart⟩)

/-- Line ends are one newline each, however the text writes them. -/
def unifyLineEnds : List Char → List Char
  | '\r' :: '\n' :: rest => '\n' :: unifyLineEnds rest
  | '\r' :: rest => '\n' :: unifyLineEnds rest
  | c :: rest => c :: unifyLineEnds rest
  | [] => []

end StubWriter.Text
