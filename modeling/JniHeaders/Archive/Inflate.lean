/-!
Unpacking deflated bytes. The packed bytes are read as one list of bits, lowest bit of each byte
first. Where the bits run out, what has been unpacked so far stands: the checksum of the member
tells whether it is all of it.
-/

namespace JniHeaders.Archive

inductive Halt where
  | endOfInput
  | corrupt
  deriving DecidableEq, Repr

abbrev Bits := List Bool

def bitsOfByte (byte : UInt8) : Bits := (List.range 8).map byte.toNat.testBit

def bitsOfBytes (bytes : List UInt8) : Bits := bytes.flatMap bitsOfByte

/-- Reads a number whose lowest bit comes first. -/
def number : Nat → Bits → Except Halt (Nat × Bits)
  | 0, bits => .ok (0, bits)
  | _ + 1, [] => .error .endOfInput
  | n + 1, bit :: bits =>
    match number n bits with
    | .ok (value, bits) => .ok (bit.toNat + 2 * value, bits)
    | .error halt => .error halt

/-- A code given by the lengths of its words. Words of one length are consecutive numbers, in
the order of their symbols, and shorter words come first. -/
structure Code where
  counts : List Nat
  symbols : Array Nat

namespace Code

def maxLength : Nat := 15

/-- Twice as many words of one bit more could begin with each word. A code leaves none of them
out, unless it has one word or none. -/
def isFull (counts : List Nat) : Bool :=
  counts.foldr (· + ·) 0 ≤ 1 ||
    counts.foldl (fun used count => 2 * used + count) 0 = Nat.pow 2 maxLength

def ofLengths (lengths : List Nat) : Except Halt Code :=
  let sizes := (List.range maxLength).map (· + 1)
  let counts := sizes.map lengths.count
  let symbols := sizes.flatMap fun size =>
    (lengths.zipIdx.filter fun (length, _) => length = size).map (·.2)
  if isFull counts then .ok ⟨counts, symbols.toArray⟩ else .error .corrupt

/-- Goes through the lengths. `word` holds the bits read so far and `first` the first word of
the length; `index` is the number of shorter words. -/
def decodeFrom (symbols : Array Nat) (word first index : Nat) :
    List Nat → Bits → Except Halt (Nat × Bits)
  | [], _ => .error .corrupt
  | _ :: _, [] => .error .endOfInput
  | count :: counts, bit :: bits =>
    let word := 2 * word + bit.toNat
    let first := 2 * first
    if word < first + count then
      match symbols[index + (word - first)]? with
      | some symbol => .ok (symbol, bits)
      | none => .error .corrupt
    else decodeFrom symbols word (first + count) (index + count) counts bits

def decode (code : Code) (bits : Bits) : Except Halt (Nat × Bits) :=
  decodeFrom code.symbols 0 0 0 code.counts bits

end Code

def fixedLengths : List Nat :=
  List.replicate 144 8 ++ List.replicate 112 9 ++ List.replicate 24 7 ++ List.replicate 8 8

def fixedDistances : List Nat := List.replicate 32 5

def lengthBases : List (Nat × Nat) :=
  [(3, 0), (4, 0), (5, 0), (6, 0), (7, 0), (8, 0), (9, 0), (10, 0), (11, 1), (13, 1), (15, 1),
    (17, 1), (19, 2), (23, 2), (27, 2), (31, 2), (35, 3), (43, 3), (51, 3), (59, 3), (67, 4),
    (83, 4), (99, 4), (115, 4), (131, 5), (163, 5), (195, 5), (227, 5), (258, 0)]

def distanceBases : List (Nat × Nat) :=
  [(1, 0), (2, 0), (3, 0), (4, 0), (5, 1), (7, 1), (9, 2), (13, 2), (17, 3), (25, 3), (33, 4),
    (49, 4), (65, 5), (97, 5), (129, 6), (193, 6), (257, 7), (385, 7), (513, 8), (769, 8),
    (1025, 9), (1537, 9), (2049, 10), (3073, 10), (4097, 11), (6145, 11), (8193, 12),
    (12289, 12), (16385, 13), (24577, 13)]

def extended (bases : List (Nat × Nat)) (symbol : Nat) (bits : Bits) :
    Except Halt (Nat × Bits) :=
  match bases[symbol]? with
  | none => .error .corrupt
  | some (base, extra) =>
    match number extra bits with
    | .ok (value, bits) => .ok (base + value, bits)
    | .error halt => .error halt

/-- Appends bytes that lie at a distance from the end, which is not beyond the beginning; they may
be among those appended. -/
def repeatBytes (distance : Nat) : Nat → Array UInt8 → Array UInt8
  | 0, out => out
  | n + 1, out =>
    match out[out.size - distance]? with
    | some byte => repeatBytes distance n (out.push byte)
    | none => out

/-- The outcome of a part: whether it came to its end, what has been unpacked, what is left. -/
structure Progress where
  halt : Option Halt
  out : Array UInt8
  bits : Bits

def repetition (distances : Code) (symbol : Nat) (bits : Bits) :
    Except Halt (Nat × Nat × Bits) := do
  let (length, bits) ← extended lengthBases (symbol - 257) bits
  let (place, bits) ← distances.decode bits
  let (distance, bits) ← extended distanceBases place bits
  return (length, distance, bits)

/-- Unpacks up to the end of a block. A symbol has one bit at least, so that the number of bits
is fuel enough. -/
def unpackSymbols (lengths distances : Code) : Nat → Array UInt8 → Bits → Progress
  | 0, out, bits => ⟨some .endOfInput, out, bits⟩
  | fuel + 1, out, bits =>
    match lengths.decode bits with
    | .error halt => ⟨some halt, out, bits⟩
    | .ok (symbol, bits) =>
      if symbol < 256 then
        unpackSymbols lengths distances fuel (out.push (UInt8.ofNat symbol)) bits
      else if symbol = 256 then ⟨none, out, bits⟩
      else
        match repetition distances symbol bits with
        | .error halt => ⟨some halt, out, bits⟩
        | .ok (length, distance, bits) =>
          if distance ≤ out.size then
            unpackSymbols lengths distances fuel (repeatBytes distance length out) bits
          else ⟨some .corrupt, out, bits⟩

def takeBytes : Nat → Array UInt8 → Bits → Progress
  | 0, out, bits => ⟨none, out, bits⟩
  | n + 1, out, bits =>
    match number 8 bits with
    | .ok (byte, bits) => takeBytes n (out.push (UInt8.ofNat byte)) bits
    | .error halt => ⟨some halt, out, bits⟩

/-- Bytes that are not packed begin at a byte boundary, with their number and its complement. -/
def unpackStored (out : Array UInt8) (bits : Bits) : Progress :=
  let bits := bits.drop (bits.length % 8)
  match number 16 bits with
  | .error halt => ⟨some halt, out, bits⟩
  | .ok (length, bits) =>
    match number 16 bits with
    | .error halt => ⟨some halt, out, bits⟩
    | .ok (complement, bits) =>
      if length + complement = 0xFFFF then takeBytes length out bits
      else ⟨some .corrupt, out, bits⟩

def lengthOrder : List Nat := [16, 17, 18, 0, 8, 7, 9, 6, 10, 5, 11, 4, 12, 3, 13, 2, 14, 1, 15]

def numbers (size : Nat) : Nat → Bits → Except Halt (List Nat × Bits)
  | 0, bits => .ok ([], bits)
  | n + 1, bits => do
    let (value, bits) ← number size bits
    let (values, bits) ← numbers size n bits
    return (value :: values, bits)

/-- Reads lengths until there are as many as wanted. Some symbols stand for a run: the last
length three to six times, or zeros. -/
def codeLengths (code : Code) (wanted : Nat) :
    Nat → Array Nat → Bits → Except Halt (Array Nat × Bits)
  | 0, _, _ => .error .corrupt
  | fuel + 1, lengths, bits =>
    if lengths.size = wanted then .ok (lengths, bits)
    else if wanted < lengths.size then .error .corrupt
    else do
      let (symbol, bits) ← code.decode bits
      if symbol < 16 then codeLengths code wanted fuel (lengths.push symbol) bits
      else if symbol = 16 then
        match lengths.back? with
        | none => .error .corrupt
        | some last =>
          let (count, bits) ← number 2 bits
          codeLengths code wanted fuel (lengths ++ Array.replicate (3 + count) last) bits
      else if symbol = 17 then
        let (count, bits) ← number 3 bits
        codeLengths code wanted fuel (lengths ++ Array.replicate (3 + count) 0) bits
      else
        let (count, bits) ← number 7 bits
        codeLengths code wanted fuel (lengths ++ Array.replicate (11 + count) 0) bits

def readCodes (bits : Bits) : Except Halt (Code × Code × Bits) := do
  let (literals, bits) ← number 5 bits
  let (places, bits) ← number 5 bits
  let (count, bits) ← number 4 bits
  let literals := literals + 257
  let wanted := literals + places + 1
  let (sizes, bits) ← numbers 3 (count + 4) bits
  let table := lengthOrder.zip sizes
  let code ← Code.ofLengths ((List.range 19).map fun symbol => (table.lookup symbol).getD 0)
  let (lengths, bits) ← codeLengths code wanted (wanted + 1) #[] bits
  let lengthCode ← Code.ofLengths (lengths.toList.take literals)
  let distanceCode ← Code.ofLengths (lengths.toList.drop literals)
  return (lengthCode, distanceCode, bits)

def unpackBlock (kind : Nat) (out : Array UInt8) (bits : Bits) : Progress :=
  if kind = 0 then unpackStored out bits
  else
    let codes := if kind = 1 then do
        return (← Code.ofLengths fixedLengths, ← Code.ofLengths fixedDistances, bits)
      else if kind = 2 then readCodes bits
      else .error .corrupt
    match codes with
    | .error halt => ⟨some halt, out, bits⟩
    | .ok (lengths, distances, bits) => unpackSymbols lengths distances bits.length out bits

def unpackBlocks : Nat → Array UInt8 → Bits → Progress
  | 0, out, bits => ⟨some .endOfInput, out, bits⟩
  | fuel + 1, out, bits =>
    match number 3 bits with
    | .error halt => ⟨some halt, out, bits⟩
    | .ok (opening, bits) =>
      match unpackBlock (opening / 2) out bits with
      | ⟨none, out, bits⟩ =>
        if opening % 2 = 1 then ⟨none, out, bits⟩ else unpackBlocks fuel out bits
      | stopped => stopped

def inflate (packed : List UInt8) : Option (List UInt8) :=
  let bits := bitsOfBytes packed
  match unpackBlocks bits.length #[] bits with
  | ⟨some .corrupt, _, _⟩ => none
  | ⟨_, out, _⟩ => some out.toList

end JniHeaders.Archive
