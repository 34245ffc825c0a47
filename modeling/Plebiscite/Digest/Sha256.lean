/-!
# SHA-256

The 256-bit secure hash of a byte string: the message is padded to whole blocks of 64 bytes, each
block is expanded to 64 words, and the words are mixed into eight words of state.

## Main definitions

- `Sha256.digest`: the eight words of the hash
- `Sha256.hex`: the hash of a text in UTF-8, in hexadecimal
-/

namespace Plebiscite.Sha256

/-- The round constants: the fractional parts of the cube roots of the first 64 primes. -/
def roundConstants : List UInt32 :=
  [0x428a2f98, 0x71374491, 0xb5c0fbcf, 0xe9b5dba5, 0x3956c25b, 0x59f111f1, 0x923f82a4, 0xab1c5ed5,
   0xd807aa98, 0x12835b01, 0x243185be, 0x550c7dc3, 0x72be5d74, 0x80deb1fe, 0x9bdc06a7, 0xc19bf174,
   0xe49b69c1, 0xefbe4786, 0x0fc19dc6, 0x240ca1cc, 0x2de92c6f, 0x4a7484aa, 0x5cb0a9dc, 0x76f988da,
   0x983e5152, 0xa831c66d, 0xb00327c8, 0xbf597fc7, 0xc6e00bf3, 0xd5a79147, 0x06ca6351, 0x14292967,
   0x27b70a85, 0x2e1b2138, 0x4d2c6dfc, 0x53380d13, 0x650a7354, 0x766a0abb, 0x81c2c92e, 0x92722c85,
   0xa2bfe8a1, 0xa81a664b, 0xc24b8b70, 0xc76c51a3, 0xd192e819, 0xd6990624, 0xf40e3585, 0x106aa070,
   0x19a4c116, 0x1e376c08, 0x2748774c, 0x34b0bcb5, 0x391c0cb3, 0x4ed8aa4a, 0x5b9cca4f, 0x682e6ff3,
   0x748f82ee, 0x78a5636f, 0x84c87814, 0x8cc70208, 0x90befffa, 0xa4506ceb, 0xbef9a3f7, 0xc67178f2]

/-- The eight words of state. -/
structure State where
  a : UInt32
  b : UInt32
  c : UInt32
  d : UInt32
  e : UInt32
  f : UInt32
  g : UInt32
  h : UInt32

/-- The state before the first block: the fractional parts of the square roots of the first eight
primes. -/
def State.start : State :=
  ⟨0x6a09e667, 0xbb67ae85, 0x3c6ef372, 0xa54ff53a, 0x510e527f, 0x9b05688c, 0x1f83d9ab, 0x5be0cd19⟩

/-- The words of a state in order. -/
def State.words (s : State) : List UInt32 :=
  [s.a, s.b, s.c, s.d, s.e, s.f, s.g, s.h]

/-- The sum of two states, word by word. -/
def State.add (s t : State) : State :=
  ⟨s.a + t.a, s.b + t.b, s.c + t.c, s.d + t.d, s.e + t.e, s.f + t.f, s.g + t.g, s.h + t.h⟩

/-- Rotation to the right. -/
def rotate (x : UInt32) (n : UInt32) : UInt32 :=
  (x >>> n) ||| (x <<< (32 - n))

/-- One round of mixing, with the sum of a round constant and a word of the block. -/
def State.round (s : State) (k : UInt32) : State :=
  let s1 := rotate s.e 6 ^^^ rotate s.e 11 ^^^ rotate s.e 25
  let choice := (s.e &&& s.f) ^^^ ((~~~ s.e) &&& s.g)
  let t1 := s.h + s1 + choice + k
  let s0 := rotate s.a 2 ^^^ rotate s.a 13 ^^^ rotate s.a 22
  let majority := (s.a &&& s.b) ^^^ (s.a &&& s.c) ^^^ (s.b &&& s.c)
  ⟨t1 + (s0 + majority), s.a, s.b, s.c, s.d + t1, s.e, s.f, s.g⟩

/-- Extends the words of a block by `n` words, each made of four earlier ones. -/
def extend (ws : Array UInt32) : Nat → Array UInt32
  | 0 => ws
  | n + 1 =>
    let word (back : Nat) : UInt32 := ws.getD (ws.size - back) 0
    let x := word 15
    let y := word 2
    let s0 := rotate x 7 ^^^ rotate x 18 ^^^ (x >>> 3)
    let s1 := rotate y 17 ^^^ rotate y 19 ^^^ (y >>> 10)
    extend (ws.push (word 16 + s0 + word 7 + s1)) n

/-- Mixes one block of sixteen words into the state. -/
def State.absorb (s : State) (block : List UInt32) : State :=
  let words := (extend block.toArray 48).toList
  s.add ((words.zip roundConstants).foldl (fun t (w, k) => t.round (k + w)) s)

/-- The `n` low bytes of a number, most significant first. -/
def bigEndian (n value : Nat) : List UInt8 :=
  (List.range n).map fun i => UInt8.ofNat (value >>> (8 * (n - 1 - i)))

/-- The message, a one bit, zero bits up to a whole block less eight bytes, and its length in
bits. -/
def pad (bytes : List UInt8) : List UInt8 :=
  let n := bytes.length
  bytes ++ 0x80 :: List.replicate ((119 - n % 64) % 64) 0 ++ bigEndian 8 (8 * n)

/-- Groups bytes into words of four. -/
def wordsOf : List UInt8 → List UInt32
  | a :: b :: c :: d :: rest =>
    ((a.toUInt32 <<< 24) ||| (b.toUInt32 <<< 16) ||| (c.toUInt32 <<< 8) ||| d.toUInt32) ::
      wordsOf rest
  | _ => []

/-- Absorbs blocks of sixteen words, at most `n` of them. -/
def absorbAll (s : State) (words : List UInt32) : Nat → State
  | 0 => s
  | n + 1 =>
    match words with
    | [] => s
    | _ => absorbAll (s.absorb (words.take 16)) (words.drop 16) n

/-- The eight words of the hash of a byte string. -/
def digest (bytes : List UInt8) : List UInt32 :=
  let words := wordsOf (pad bytes)
  (absorbAll .start words (words.length / 16)).words

/-- A word in hexadecimal. -/
def hexWord (w : UInt32) : List Char :=
  (List.range 8).map fun i => Nat.digitChar ((w.toNat >>> (4 * (7 - i))) % 16)

/-- The hash of a text in UTF-8, in hexadecimal. -/
def hex (s : String) : String :=
  String.ofList ((digest s.toUTF8.toList).flatMap hexWord)

end Plebiscite.Sha256
