set_option autoImplicit false

/-!
# The 128-bit XXH3 digest

`Digest.ofBytes` is XXH3-128 with seed zero and the standard secret.  Inputs are
treated by length: up to 16 bytes by one or two multiplications, up to 240 bytes
by mixing 32-byte pieces against the secret, longer ones by eight accumulators
over 64-byte stripes.  All arithmetic is modulo `2 ^ 64`.
-/

namespace Arcbase

/-- A 128-bit digest as two words. -/
structure Digest where
  high : UInt64
  low : UInt64
  deriving DecidableEq, Repr

namespace Digest

/-- The digest as one number. -/
def toNat (d : Digest) : Nat := d.high.toNat * UInt64.size + d.low.toNat

/-! ## Constants -/

def prime32First : UInt64 := 0x9E3779B1
def prime32Second : UInt64 := 0x85EBCA77
def prime32Third : UInt64 := 0xC2B2AE3D
def primeFirst : UInt64 := 0x9E3779B185EBCA87
def primeSecond : UInt64 := 0xC2B2AE3D27D4EB4F
def primeThird : UInt64 := 0x165667B19E3779F9
def primeFourth : UInt64 := 0x85EBCA77C2B2AE63
def primeFifth : UInt64 := 0x27D4EB2F165667C5
def mixFirst : UInt64 := 0x165667919E3779F9
def mixSecond : UInt64 := 0x9FB21C651E98DF25

/-- The standard secret. -/
def secret : Array UInt8 := #[
  0xb8, 0xfe, 0x6c, 0x39, 0x23, 0xa4, 0x4b, 0xbe, 0x7c, 0x01, 0x81, 0x2c, 0xf7, 0x21, 0xad, 0x1c,
  0xde, 0xd4, 0x6d, 0xe9, 0x83, 0x90, 0x97, 0xdb, 0x72, 0x40, 0xa4, 0xa4, 0xb7, 0xb3, 0x67, 0x1f,
  0xcb, 0x79, 0xe6, 0x4e, 0xcc, 0xc0, 0xe5, 0x78, 0x82, 0x5a, 0xd0, 0x7d, 0xcc, 0xff, 0x72, 0x21,
  0xb8, 0x08, 0x46, 0x74, 0xf7, 0x43, 0x24, 0x8e, 0xe0, 0x35, 0x90, 0xe6, 0x81, 0x3a, 0x26, 0x4c,
  0x3c, 0x28, 0x52, 0xbb, 0x91, 0xc3, 0x00, 0xcb, 0x88, 0xd0, 0x65, 0x8b, 0x1b, 0x53, 0x2e, 0xa3,
  0x71, 0x64, 0x48, 0x97, 0xa2, 0x0d, 0xf9, 0x4e, 0x38, 0x19, 0xef, 0x46, 0xa9, 0xde, 0xac, 0xd8,
  0xa8, 0xfa, 0x76, 0x3f, 0xe3, 0x9c, 0x34, 0x3f, 0xf9, 0xdc, 0xbb, 0xc7, 0xc7, 0x0b, 0x4f, 0x1d,
  0x8a, 0x51, 0xe0, 0x4b, 0xcd, 0xb4, 0x59, 0x31, 0xc8, 0x9f, 0x7e, 0xc9, 0xd9, 0x78, 0x73, 0x64,
  0xea, 0xc5, 0xac, 0x83, 0x34, 0xd3, 0xeb, 0xc3, 0xc5, 0x81, 0xa0, 0xff, 0xfa, 0x13, 0x63, 0xeb,
  0x17, 0x0d, 0xdd, 0x51, 0xb7, 0xf0, 0xda, 0x49, 0xd3, 0x16, 0x55, 0x26, 0x29, 0xd4, 0x68, 0x9e,
  0x2b, 0x16, 0xbe, 0x58, 0x7d, 0x47, 0xa1, 0xfc, 0x8f, 0xf8, 0xb8, 0xd1, 0x7a, 0xd0, 0x31, 0xce,
  0x45, 0xcb, 0x3a, 0x8f, 0x95, 0x16, 0x04, 0x28, 0xaf, 0xd7, 0xfb, 0xca, 0xbb, 0x4b, 0x40, 0x7e]

/-! ## Reading and mixing words -/

/-- The byte at an offset, zero past the end. -/
def byteAt (bytes : Array UInt8) (i : Nat) : UInt64 := (bytes.getD i 0).toUInt64

/-- Four bytes, least significant first. -/
def word32 (bytes : Array UInt8) (i : Nat) : UInt64 :=
  byteAt bytes i ||| byteAt bytes (i + 1) <<< 8 ||| byteAt bytes (i + 2) <<< 16 |||
    byteAt bytes (i + 3) <<< 24

/-- Eight bytes, least significant first. -/
def word64 (bytes : Array UInt8) (i : Nat) : UInt64 :=
  word32 bytes i ||| word32 bytes (i + 4) <<< 32

/-- The lower 32 bits of a word. -/
def lowHalf (x : UInt64) : UInt64 := x &&& 0xffffffff

/-- The low half of a word with its four bytes reversed. -/
def swap32 (x : UInt64) : UInt64 :=
  let byte (i : UInt64) : UInt64 := (x >>> i) &&& 0xff
  byte 0 <<< 24 ||| byte 8 <<< 16 ||| byte 16 <<< 8 ||| byte 24

/-- A word with its eight bytes reversed. -/
def swap64 (x : UInt64) : UInt64 := swap32 x <<< 32 ||| swap32 (x >>> 32)

/-- The full product of two words. -/
def product (a b : UInt64) : Digest :=
  let p := a.toNat * b.toNat
  ⟨UInt64.ofNat (p / UInt64.size), UInt64.ofNat p⟩

/-- Both halves of the full product, combined by exclusive or. -/
def foldedProduct (a b : UInt64) : UInt64 :=
  let p := product a b
  p.high ^^^ p.low

def shiftXor (x : UInt64) (by' : UInt64) : UInt64 := x ^^^ x >>> by'

/-- Spreads every bit of a word over all of it. -/
def avalanche (h : UInt64) : UInt64 := shiftXor (shiftXor h 37 * mixFirst) 32

/-- The stronger spreading used for the shortest inputs. -/
def avalancheShort (h : UInt64) : UInt64 :=
  shiftXor (shiftXor (shiftXor h 33 * primeSecond) 29 * primeThird) 32

/-! ## Up to 16 bytes -/

def ofNone : Digest :=
  { low := avalancheShort (word64 secret 64 ^^^ word64 secret 72)
    high := avalancheShort (word64 secret 80 ^^^ word64 secret 88) }

def ofUpTo3 (bytes : Array UInt8) : Digest :=
  let n := bytes.size
  let combined := byteAt bytes 0 <<< 16 ||| byteAt bytes (n / 2) <<< 24 ||| byteAt bytes (n - 1) |||
    UInt64.ofNat n <<< 8
  let swapped := swap32 combined
  let rotated := lowHalf (swapped <<< 13 ||| swapped >>> 19)
  { low := avalancheShort (combined ^^^ (word32 secret 0 ^^^ word32 secret 4))
    high := avalancheShort (rotated ^^^ (word32 secret 8 ^^^ word32 secret 12)) }

def ofUpTo8 (bytes : Array UInt8) : Digest :=
  let n := bytes.size
  let input := word32 bytes 0 + word32 bytes (n - 4) <<< 32
  let keyed := input ^^^ (word64 secret 16 ^^^ word64 secret 24)
  let p := product keyed (primeFirst + UInt64.ofNat n <<< 2)
  let high := p.high + p.low <<< 1
  let low := p.low ^^^ high >>> 3
  { low := shiftXor (shiftXor low 35 * mixSecond) 28
    high := avalanche high }

def ofUpTo16 (bytes : Array UInt8) : Digest :=
  let n := bytes.size
  let first := word64 bytes 0
  let last := word64 bytes (n - 8)
  let p := product (first ^^^ last ^^^ (word64 secret 32 ^^^ word64 secret 40)) primeFirst
  let low := p.low + UInt64.ofNat (n - 1) <<< 54
  let keyed := last ^^^ (word64 secret 48 ^^^ word64 secret 56)
  let high := p.high + (keyed + lowHalf keyed * (prime32Second - 1))
  let q := product (low ^^^ swap64 high) primeSecond
  { low := avalanche q.low
    high := avalanche (q.high + high * primeSecond) }

/-! ## Up to 240 bytes -/

/-- Sixteen bytes against sixteen bytes of the secret. -/
def mix16 (bytes : Array UInt8) (i key : Nat) : UInt64 :=
  foldedProduct (word64 bytes i ^^^ word64 secret key)
    (word64 bytes (i + 8) ^^^ word64 secret (key + 8))

/-- Mixes two pieces of sixteen bytes into both words. -/
def mix32 (bytes : Array UInt8) (acc : Digest) (i j key : Nat) : Digest :=
  { low := (acc.low + mix16 bytes i key) ^^^ (word64 bytes j + word64 bytes (j + 8))
    high := (acc.high + mix16 bytes j (key + 16)) ^^^ (word64 bytes i + word64 bytes (i + 8)) }

/-- The last step for inputs of 17 to 240 bytes. -/
def finishMedium (length : Nat) (acc : Digest) : Digest :=
  { low := avalanche (acc.low + acc.high)
    high := 0 - avalanche (acc.low * primeFirst + acc.high * primeFourth +
      UInt64.ofNat length * primeSecond) }

def ofUpTo128 (bytes : Array UInt8) : Digest :=
  let n := bytes.size
  let pairs := (n - 1) / 32 + 1
  finishMedium n <|
    (List.range pairs).reverse.foldl
      (fun acc i => mix32 bytes acc (16 * i) (n - 16 * (i + 1)) (32 * i))
      { low := UInt64.ofNat n * primeFirst, high := 0 }

def ofUpTo240 (bytes : Array UInt8) : Digest :=
  let n := bytes.size
  let start := (List.range 4).foldl
    (fun acc i => mix32 bytes acc (32 * i) (32 * i + 16) (32 * i))
    { low := UInt64.ofNat n * primeFirst, high := 0 }
  let spread : Digest := { low := avalanche start.low, high := avalanche start.high }
  let rest := (List.range (n / 32 - 4)).foldl
    (fun acc i => mix32 bytes acc (128 + 32 * i) (144 + 32 * i) (3 + 32 * i)) spread
  finishMedium n (mix32 bytes rest (n - 16) (n - 32) 103)

/-! ## Longer inputs -/

/-- Eight accumulators. -/
abbrev Lanes := List UInt64

def initialLanes : Lanes :=
  [prime32Third, primeFirst, primeSecond, primeThird, primeFourth, prime32Second, primeFifth,
    prime32First]

/-- Mixes a stripe of 64 bytes into the lanes: each lane gains the product of
the halves of its keyed word and the plain word of its partner. -/
def accumulate (bytes : Array UInt8) (lanes : Lanes) (i key : Nat) : Lanes :=
  lanes.mapIdx fun lane acc =>
    let keyed := word64 bytes (i + 8 * lane) ^^^ word64 secret (key + 8 * lane)
    let partner := if lane % 2 = 0 then lane + 1 else lane - 1
    acc + word64 bytes (i + 8 * partner) + lowHalf keyed * (keyed >>> 32)

/-- Stirs the lanes at the end of a block. -/
def scramble (lanes : Lanes) : Lanes :=
  lanes.mapIdx fun lane acc =>
    (shiftXor acc 47 ^^^ word64 secret (128 + 8 * lane)) * prime32First

/-- Folds the lanes into one word. -/
def merge (lanes : Lanes) (key : Nat) (start : UInt64) : UInt64 :=
  let lane i := lanes.getD i 0
  avalanche <| (List.range 4).foldl
    (fun acc i => acc + foldedProduct (lane (2 * i) ^^^ word64 secret (key + 16 * i))
      (lane (2 * i + 1) ^^^ word64 secret (key + 16 * i + 8))) start

def ofLong (bytes : Array UInt8) : Digest :=
  let n := bytes.size
  let stripes (lanes : Lanes) (start count : Nat) : Lanes :=
    (List.range count).foldl (fun acc s => accumulate bytes acc (start + 64 * s) (8 * s)) lanes
  let blocks := (n - 1) / 1024
  let full := (List.range blocks).foldl
    (fun acc b => scramble (stripes acc (1024 * b) 16)) initialLanes
  let partly := stripes full (1024 * blocks) ((n - 1 - 1024 * blocks) / 64)
  let lanes := accumulate bytes partly (n - 64) 121
  { low := merge lanes 11 (UInt64.ofNat n * primeFirst)
    high := merge lanes 117 (~~~(UInt64.ofNat n * primeSecond)) }

/-! ## All lengths -/

/-- The digest of a sequence of bytes. -/
def ofBytes (bytes : Array UInt8) : Digest :=
  let n := bytes.size
  if n = 0 then ofNone
  else if n ≤ 3 then ofUpTo3 bytes
  else if n ≤ 8 then ofUpTo8 bytes
  else if n ≤ 16 then ofUpTo16 bytes
  else if n ≤ 128 then ofUpTo128 bytes
  else if n ≤ 240 then ofUpTo240 bytes
  else ofLong bytes

/-- The digest of a text's UTF-8 bytes. -/
def ofString (s : String) : Digest := ofBytes s.toUTF8.data

theorem ofBytes_empty : ofBytes #[] = ofNone := rfl

end Digest

end Arcbase
