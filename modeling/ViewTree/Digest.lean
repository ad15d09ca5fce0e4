import ViewTree.Text.Basic

/-!
# SHA-256

The digest of a byte sequence, written as sixty-four hexadecimal digits. Names
of classes, fingerprints of outputs and keys of cached results are built on it.
-/

namespace ViewTree.Digest

/-- The chaining value: eight words. -/
structure State where
  (a b c d e f g h : UInt32)

/-- Fractional parts of the square roots of the first eight primes. -/
def initial : State :=
  ⟨0x6a09e667, 0xbb67ae85, 0x3c6ef372, 0xa54ff53a, 0x510e527f, 0x9b05688c,
   0x1f83d9ab, 0x5be0cd19⟩

/-- Fractional parts of the cube roots of the first sixty-four primes. -/
def roundConstants : List UInt32 :=
  [0x428a2f98, 0x71374491, 0xb5c0fbcf, 0xe9b5dba5, 0x3956c25b, 0x59f111f1,
   0x923f82a4, 0xab1c5ed5, 0xd807aa98, 0x12835b01, 0x243185be, 0x550c7dc3,
   0x72be5d74, 0x80deb1fe, 0x9bdc06a7, 0xc19bf174, 0xe49b69c1, 0xefbe4786,
   0x0fc19dc6, 0x240ca1cc, 0x2de92c6f, 0x4a7484aa, 0x5cb0a9dc, 0x76f988da,
   0x983e5152, 0xa831c66d, 0xb00327c8, 0xbf597fc7, 0xc6e00bf3, 0xd5a79147,
   0x06ca6351, 0x14292967, 0x27b70a85, 0x2e1b2138, 0x4d2c6dfc, 0x53380d13,
   0x650a7354, 0x766a0abb, 0x81c2c92e, 0x92722c85, 0xa2bfe8a1, 0xa81a664b,
   0xc24b8b70, 0xc76c51a3, 0xd192e819, 0xd6990624, 0xf40e3585, 0x106aa070,
   0x19a4c116, 0x1e376c08, 0x2748774c, 0x34b0bcb5, 0x391c0cb3, 0x4ed8aa4a,
   0x5b9cca4f, 0x682e6ff3, 0x748f82ee, 0x78a5636f, 0x84c87814, 0x8cc70208,
   0x90befffa, 0xa4506ceb, 0xbef9a3f7, 0xc67178f2]

/-- Rotation to the right. -/
def rotate (x n : UInt32) : UInt32 := (x >>> n) ||| (x <<< (32 - n))

/-- The eight bytes of a number, most significant first. -/
def bytesOfLength (n : Nat) : List UInt8 :=
  (List.range 8).map fun i => UInt8.ofNat (n >>> (8 * (7 - i)))

/-- The message followed by a single one bit, zeros up to eight bytes short of a
block, and its length in bits. -/
def pad (message : List UInt8) : List UInt8 :=
  let n := message.length
  let zeros := (119 - n % 64) % 64
  message ++ [0x80] ++ List.replicate zeros 0 ++ bytesOfLength (8 * n)

/-- The bytes as words of four, most significant first. -/
def toWords : List UInt8 → List UInt32
  | a :: b :: c :: d :: rest =>
    ((a.toUInt32 <<< 24) ||| (b.toUInt32 <<< 16) ||| (c.toUInt32 <<< 8) ||| d.toUInt32) ::
      toWords rest
  | _ => []

/-- Extends sixteen words to sixty-four; `window` holds the last sixteen. -/
def extendWords : (count : Nat) → (window : List UInt32) → List UInt32
  | 0, window => window
  | count + 1, window =>
    match window with
    | w0 :: w1 :: rest =>
      let w9 := rest.getD 7 0
      let w14 := rest.getD 12 0
      let s0 := rotate w1 7 ^^^ rotate w1 18 ^^^ (w1 >>> 3)
      let s1 := rotate w14 17 ^^^ rotate w14 19 ^^^ (w14 >>> 10)
      w0 :: extendWords count (w1 :: rest ++ [w0 + s0 + w9 + s1])
    | short => short

/-- One round with a round constant and a message word. -/
def State.round (s : State) (k w : UInt32) : State :=
  let s1 := rotate s.e 6 ^^^ rotate s.e 11 ^^^ rotate s.e 25
  let ch := (s.e &&& s.f) ^^^ (~~~ s.e &&& s.g)
  let t1 := s.h + s1 + ch + k + w
  let s0 := rotate s.a 2 ^^^ rotate s.a 13 ^^^ rotate s.a 22
  let maj := (s.a &&& s.b) ^^^ (s.a &&& s.c) ^^^ (s.b &&& s.c)
  ⟨t1 + s0 + maj, s.a, s.b, s.c, s.d + t1, s.e, s.f, s.g⟩

/-- The chaining value after one block of sixteen words. -/
def State.absorb (s : State) (block : List UInt32) : State :=
  let t := (roundConstants.zip (extendWords 48 block)).foldl (fun t (k, w) => t.round k w) s
  ⟨s.a + t.a, s.b + t.b, s.c + t.c, s.d + t.d, s.e + t.e, s.f + t.f, s.g + t.g, s.h + t.h⟩

/-- The chaining value after `count` blocks. -/
def State.absorbAll : (count : Nat) → State → List UInt32 → State
  | 0, s, _ => s
  | count + 1, s, words => absorbAll count (s.absorb (words.take 16)) (words.drop 16)

/-- A word as eight hexadecimal digits. -/
def hexWord (w : UInt32) : List Char :=
  (List.range 8).map fun i => Text.hexDigit ((w.toNat >>> (4 * (7 - i))) % 16)

/-- The digest of a byte sequence. -/
def sha256 (message : List UInt8) : State :=
  let words := toWords (pad message)
  State.absorbAll (words.length / 16) initial words

/-- The digest of a text in UTF-8, as hexadecimal digits. -/
def hexOfText (text : String) : String :=
  let s := sha256 text.toUTF8.toList
  String.ofList ([s.a, s.b, s.c, s.d, s.e, s.f, s.g, s.h].flatMap hexWord)

end ViewTree.Digest
