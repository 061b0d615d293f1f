/-
# Deflated data

Data is a row of blocks: stored as they are, or written in two prefix codes, one for bytes and the
lengths of repeats and one for their distances.  A prefix code is given by the lengths of its words
alone: words of one length follow each other in the order of their symbols.  What could be read
before a fault is kept.
-/

namespace ServerWarden.Archive

/-- The bits of a byte, the lowest first. -/
def bitsOfByte (b : UInt8) : List Bool := (List.range 8).map fun i => b.toNat.testBit i

def bitsOfBytes (bytes : List UInt8) : List Bool := bytes.flatMap bitsOfByte

/-- Takes a number of `count` bits, the lowest first. -/
def takeNumber : Nat → List Bool → Option (Nat × List Bool)
  | 0, bits => some (0, bits)
  | _ + 1, [] => none
  | count + 1, b :: bits =>
    (takeNumber count bits).map fun (n, rest) => (2 * n + b.toNat, rest)

/-- A prefix code: how many words there are of each length, and the symbols in the order of words.
-/
structure PrefixCode where
  counts : List Nat
  symbols : Array Nat

/-- The longest word of a code. -/
def wordLimit : Nat := 15

/-- The code whose words have the given lengths; a length of zero means no word. -/
def PrefixCode.ofLengths (lengths : List Nat) : PrefixCode where
  counts := (List.range wordLimit).map fun i => lengths.count (i + 1)
  symbols := ((List.range wordLimit).flatMap fun i =>
    (lengths.zipIdx.filter fun e => e.1 = i + 1).map (·.2)).toArray

/-- Takes a word.  `word` is what was read of it, `first` the first word of this length and `index`
the number of shorter words. -/
def takeSymbol (symbols : Array Nat) (word first index : Nat) :
    List Nat → List Bool → Option (Nat × List Bool)
  | count :: counts, b :: bits =>
    let word := 2 * word + b.toNat
    let first := 2 * first
    if word < first + count then symbols[index + (word - first)]?.map fun s => (s, bits)
    else takeSymbol symbols word (first + count) (index + count) counts bits
  | _, _ => none

def PrefixCode.take (c : PrefixCode) (bits : List Bool) : Option (Nat × List Bool) :=
  takeSymbol c.symbols 0 0 0 c.counts bits

/-- The least value and the number of further bits of each symbol, where the bits grow by one after
every `width` symbols. -/
def ranges (start width count : Nat) : List (Nat × Nat) :=
  ((List.range count).foldl (fun (next, acc) i =>
    let bits := i / width - 1
    (next + Nat.pow 2 bits, (next, bits) :: acc)) (start, [])).2.reverse

/-- The lengths of repeats, for the symbols from 257. -/
def lengthRanges : Array (Nat × Nat) := ((ranges 3 4 28) ++ [(258, 0)]).toArray

/-- The distances of repeats. -/
def distanceRanges : Array (Nat × Nat) := (ranges 1 2 30).toArray

def endOfBlock : Nat := 256

/-- Copies `count` bytes from `distance` back, one by one. -/
def copyBack (out : Array UInt8) (distance : Nat) : Nat → Array UInt8
  | 0 => out
  | count + 1 => copyBack (out.push (out.getD (out.size - distance) 0)) distance count

/-- What comes of reading: the bytes so far, and the bits that are left unless there was a fault. -/
abbrev Progress := Array UInt8 × Option (List Bool)

/-- Reads symbols up to the end of a block.  `fuel` bounds their number. -/
def readSymbols (literals distances : PrefixCode) : Nat → Array UInt8 → List Bool → Progress
  | 0, out, _ => (out, none)
  | fuel + 1, out, bits =>
    match literals.take bits with
    | none => (out, none)
    | some (symbol, bits) =>
      if symbol < endOfBlock then
        readSymbols literals distances fuel (out.push (.ofNat symbol)) bits
      else if symbol = endOfBlock then (out, some bits)
      else
        match repeat? symbol bits with
        | some (length, distance, bits) =>
          if out.size < distance then (out, none)
          else readSymbols literals distances fuel (copyBack out distance length) bits
        | none => (out, none)
where
  repeat? (symbol : Nat) (bits : List Bool) : Option (Nat × Nat × List Bool) := do
    let (start, width) ← lengthRanges[symbol - 257]?
    let (more, bits) ← takeNumber width bits
    let (symbol, bits) ← distances.take bits
    let (back, width) ← distanceRanges[symbol]?
    let (further, bits) ← takeNumber width bits
    return (start + more, back + further, bits)

/-- The order in which the lengths of the code for lengths are written. -/
def lengthOrder : List Nat := [16, 17, 18, 0, 8, 7, 9, 6, 10, 5, 11, 4, 12, 3, 13, 2, 14, 1, 15]

/-- Reads `count` numbers of three bits. -/
def takeTriples : Nat → List Bool → Option (List Nat × List Bool)
  | 0, bits => some ([], bits)
  | count + 1, bits => do
    let (n, bits) ← takeNumber 3 bits
    let (ns, bits) ← takeTriples count bits
    return (n :: ns, bits)

/-- Reads the lengths of words until there are `count`, the latest first.  `fuel` bounds the steps.
-/
def takeLengths (code : PrefixCode) (count : Nat) :
    Nat → List Nat → List Bool → Option (List Nat × List Bool)
  | 0, _, _ => none
  | fuel + 1, seen, bits => do
    if count ≤ seen.length then return (seen.reverse.take count, bits)
    else
      let (symbol, bits) ← code.take bits
      if symbol < 16 then takeLengths code count fuel (symbol :: seen) bits
      else if symbol = 16 then
        let (more, bits) ← takeNumber 2 bits
        takeLengths code count fuel (List.replicate (more + 3) (← seen.head?) ++ seen) bits
      else
        let (more, bits) ← takeNumber (if symbol = 17 then 3 else 7) bits
        let least := if symbol = 17 then 3 else 11
        takeLengths code count fuel (List.replicate (more + least) 0 ++ seen) bits

/-- The codes that are fixed. -/
def fixedCodes : PrefixCode × PrefixCode :=
  (.ofLengths (List.replicate 144 8 ++ List.replicate 112 9 ++ List.replicate 24 7 ++
    List.replicate 8 8), .ofLengths (List.replicate 30 5))

/-- Reads the codes of a block that brings its own. -/
def takeCodes (bits : List Bool) : Option ((PrefixCode × PrefixCode) × List Bool) := do
  let (literals, bits) ← takeNumber 5 bits
  let (distances, bits) ← takeNumber 5 bits
  let (lengths, bits) ← takeNumber 4 bits
  let (triples, bits) ← takeTriples (lengths + 4) bits
  let code := PrefixCode.ofLengths ((List.range 19).map fun symbol =>
    ((lengthOrder.zip triples).lookup symbol).getD 0)
  let count := literals + 257 + distances + 1
  let (all, bits) ← takeLengths code count (count + 1) [] bits
  return ((.ofLengths (all.take (literals + 257)), .ofLengths (all.drop (literals + 257))), bits)

/-- Takes `count` bytes that begin at a whole byte. -/
def takeBytes : Nat → Array UInt8 → List Bool → Progress
  | 0, out, bits => (out, some bits)
  | count + 1, out, bits =>
    match takeNumber 8 bits with
    | some (n, bits) => takeBytes count (out.push (.ofNat n)) bits
    | none => (out, none)

/-- Reads a stored block.  `total` is the number of all bits, by which whole bytes are found. -/
def readStored (total : Nat) (out : Array UInt8) (bits : List Bool) : Progress :=
  let bits := bits.drop ((8 - (total - bits.length) % 8) % 8)
  match takeNumber 16 bits with
  | none => (out, none)
  | some (count, bits) =>
    match takeNumber 16 bits with
    | none => (out, none)
    | some (inverse, bits) =>
      if count + inverse = 0xFFFF then takeBytes count out bits else (out, none)

/-- Reads blocks up to the last.  `fuel` bounds their number. -/
def readBlocks (total : Nat) : Nat → Array UInt8 → List Bool → Progress
  | 0, out, _ => (out, none)
  | fuel + 1, out, bits =>
    match takeNumber 1 bits, takeNumber 3 bits with
    | some (isLast, _), some (head, bits) =>
      let (out, left) :=
        match head / 2 with
        | 0 => readStored total out bits
        | 1 => readSymbols fixedCodes.1 fixedCodes.2 bits.length out bits
        | 2 =>
          match takeCodes bits with
          | some ((literals, distances), bits) =>
            readSymbols literals distances bits.length out bits
          | none => (out, none)
        | _ => (out, none)
      match left with
      | none => (out, none)
      | some bits => if isLast = 1 then (out, some bits) else readBlocks total fuel out bits
    | _, _ => (out, none)

/-- Inflates bytes.  Answers the data, and the bytes that are left unless there was a fault. -/
def inflate (bytes : List UInt8) : Array UInt8 × Option (List UInt8) :=
  let bits := bitsOfBytes bytes
  let (out, left) := readBlocks bits.length bits.length #[] bits
  (out, left.map fun bits => bytes.drop (bytes.length - bits.length / 8))

end ServerWarden.Archive
