/-
  KeyFigures/Digest/Sha256.lean
  =============================
  **The SHA-256 digest.**

  A message is padded to blocks of sixty-four bytes; each block is expanded to
  sixty-four words, which drive sixty-four rounds on a state of eight words.
-/
import KeyFigures.Text.Quoted

namespace KeyFigures.Digest

/-- The first thirty-two bits of the fractional parts of the cube roots of the
    first sixty-four primes. -/
def roundConstants : List UInt32 := [
  0x428a2f98, 0x71374491, 0xb5c0fbcf, 0xe9b5dba5, 0x3956c25b, 0x59f111f1, 0x923f82a4, 0xab1c5ed5,
  0xd807aa98, 0x12835b01, 0x243185be, 0x550c7dc3, 0x72be5d74, 0x80deb1fe, 0x9bdc06a7, 0xc19bf174,
  0xe49b69c1, 0xefbe4786, 0x0fc19dc6, 0x240ca1cc, 0x2de92c6f, 0x4a7484aa, 0x5cb0a9dc, 0x76f988da,
  0x983e5152, 0xa831c66d, 0xb00327c8, 0xbf597fc7, 0xc6e00bf3, 0xd5a79147, 0x06ca6351, 0x14292967,
  0x27b70a85, 0x2e1b2138, 0x4d2c6dfc, 0x53380d13, 0x650a7354, 0x766a0abb, 0x81c2c92e, 0x92722c85,
  0xa2bfe8a1, 0xa81a664b, 0xc24b8b70, 0xc76c51a3, 0xd192e819, 0xd6990624, 0xf40e3585, 0x106aa070,
  0x19a4c116, 0x1e376c08, 0x2748774c, 0x34b0bcb5, 0x391c0cb3, 0x4ed8aa4a, 0x5b9cca4f, 0x682e6ff3,
  0x748f82ee, 0x78a5636f, 0x84c87814, 0x8cc70208, 0x90befffa, 0xa4506ceb, 0xbef9a3f7, 0xc67178f2]

/-- The eight words of the state. -/
structure State where
  a : UInt32
  b : UInt32
  c : UInt32
  d : UInt32
  e : UInt32
  f : UInt32
  g : UInt32
  h : UInt32

/-- The first thirty-two bits of the fractional parts of the square roots of
    the first eight primes. -/
def initial : State :=
  ⟨0x6a09e667, 0xbb67ae85, 0x3c6ef372, 0xa54ff53a, 0x510e527f, 0x9b05688c, 0x1f83d9ab, 0x5be0cd19⟩

/-- A word turned right by `n` bits. -/
def rotateRight (x n : UInt32) : UInt32 := (x >>> n) ||| (x <<< (32 - n))

/-- One round with the expanded word `w` and the constant `k`. -/
def State.round (s : State) (k w : UInt32) : State :=
  let mixE := rotateRight s.e 6 ^^^ rotateRight s.e 11 ^^^ rotateRight s.e 25
  let choose := (s.e &&& s.f) ^^^ (~~~s.e &&& s.g)
  let t₁ := s.h + mixE + choose + k + w
  let mixA := rotateRight s.a 2 ^^^ rotateRight s.a 13 ^^^ rotateRight s.a 22
  let majority := (s.a &&& s.b) ^^^ (s.a &&& s.c) ^^^ (s.b &&& s.c)
  ⟨t₁ + (mixA + majority), s.a, s.b, s.c, s.d + t₁, s.e, s.f, s.g⟩

/-- The sum of two states, word by word. -/
def State.add (s t : State) : State :=
  ⟨s.a + t.a, s.b + t.b, s.c + t.c, s.d + t.d, s.e + t.e, s.f + t.f, s.g + t.g, s.h + t.h⟩

def State.words (s : State) : List UInt32 := [s.a, s.b, s.c, s.d, s.e, s.f, s.g, s.h]

/-- Appends `n` expanded words to the words so far; the newest come last. -/
def expand (n : Nat) (words : Array UInt32) : Array UInt32 :=
  match n with
  | 0 => words
  | n + 1 =>
    let at' (back : Nat) : UInt32 := words[words.size - back]?.getD 0
    let x := at' 15
    let y := at' 2
    let mixX := rotateRight x 7 ^^^ rotateRight x 18 ^^^ (x >>> 3)
    let mixY := rotateRight y 17 ^^^ rotateRight y 19 ^^^ (y >>> 10)
    expand n (words.push (at' 16 + mixX + at' 7 + mixY))

def compress (s : State) (block : List UInt32) : State :=
  let words := (expand 48 block.toArray).toList
  s.add ((roundConstants.zip words).foldl (fun s (k, w) => s.round k w) s)

/-- Bytes grouped into words, the high byte first. -/
def toWords : List UInt8 → List UInt32
  | a :: b :: c :: d :: rest =>
    ((a.toUInt32 <<< 24) ||| (b.toUInt32 <<< 16) ||| (c.toUInt32 <<< 8) ||| d.toUInt32)
      :: toWords rest
  | _ => []

/-- The last `count` bytes of a number, the high byte first. -/
def numberBytes : Nat → Nat → List UInt8
  | 0, _ => []
  | count + 1, n => numberBytes count (n / 256) ++ [UInt8.ofNat (n % 256)]

/-- A message with a set bit, zeros and its length in bits appended, a whole
    number of blocks long. -/
def padded (message : List UInt8) : List UInt8 :=
  let n := message.length
  message ++ 0x80 :: List.replicate ((119 - n % 64) % 64) 0 ++ numberBytes 8 (8 * n)

def run (s : State) (words : List UInt32) : State :=
  if _h : words.length < 16 then s else run (compress s (words.take 16)) (words.drop 16)
termination_by words.length
decreasing_by simp; omega

def sha256 (message : List UInt8) : String :=
  String.ofList
    ((run initial (toWords (padded message))).words.flatMap fun w => Text.hexDigits 8 w.toNat)

/-- The digest of a text in its eight-bit encoding. -/
def ofText (s : String) : String := sha256 s.toUTF8.toList

end KeyFigures.Digest
