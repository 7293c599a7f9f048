/-!
# SHA-256

The digest of a sequence of bytes, written in hexadecimal. The message is padded to blocks of
sixteen words, and each block is mixed into eight words of state.

* `schedule` — the sixty-four words that a block contributes.
* `compress` — one block.
* `hex` — the digest of a text in UTF-8.
-/

namespace StLint.Sha256

/-- The state before the first block. -/
def initialState : List UInt32 :=
  [
    0x6a09e667, 0xbb67ae85, 0x3c6ef372, 0xa54ff53a,
    0x510e527f, 0x9b05688c, 0x1f83d9ab, 0x5be0cd19 ]

/-- One constant for each round. -/
def roundConstants : List UInt32 :=
  [
    0x428a2f98, 0x71374491, 0xb5c0fbcf, 0xe9b5dba5, 0x3956c25b, 0x59f111f1,
    0x923f82a4, 0xab1c5ed5, 0xd807aa98, 0x12835b01, 0x243185be, 0x550c7dc3,
    0x72be5d74, 0x80deb1fe, 0x9bdc06a7, 0xc19bf174, 0xe49b69c1, 0xefbe4786,
    0x0fc19dc6, 0x240ca1cc, 0x2de92c6f, 0x4a7484aa, 0x5cb0a9dc, 0x76f988da,
    0x983e5152, 0xa831c66d, 0xb00327c8, 0xbf597fc7, 0xc6e00bf3, 0xd5a79147,
    0x06ca6351, 0x14292967, 0x27b70a85, 0x2e1b2138, 0x4d2c6dfc, 0x53380d13,
    0x650a7354, 0x766a0abb, 0x81c2c92e, 0x92722c85, 0xa2bfe8a1, 0xa81a664b,
    0xc24b8b70, 0xc76c51a3, 0xd192e819, 0xd6990624, 0xf40e3585, 0x106aa070,
    0x19a4c116, 0x1e376c08, 0x2748774c, 0x34b0bcb5, 0x391c0cb3, 0x4ed8aa4a,
    0x5b9cca4f, 0x682e6ff3, 0x748f82ee, 0x78a5636f, 0x84c87814, 0x8cc70208,
    0x90befffa, 0xa4506ceb, 0xbef9a3f7, 0xc67178f2 ]

/-- A word rotated to the right. -/
def rotate (x : UInt32) (n : UInt32) : UInt32 := (x >>> n) ||| (x <<< (32 - n))

/-- Four bytes as a word, most significant first; missing bytes are zero. -/
def word (bytes : List UInt8) : UInt32 :=
  (bytes.take 4).foldl (fun w b => (w <<< 8) ||| b.toUInt32) 0

/-- The bytes of a natural number of 64 bits, most significant first. -/
def bytes64 (n : Nat) : List UInt8 :=
  (List.range 8).map fun i => UInt8.ofNat (n >>> (8 * (7 - i)))

/-- A message with a one bit, zeros up to a whole number of blocks, and its length in bits. -/
def pad (message : List UInt8) : List UInt8 :=
  message ++ 0x80 :: List.replicate ((119 - message.length % 64) % 64) 0 ++
    bytes64 (8 * message.length)

/-- The words of a message. The number of bytes bounds the steps. -/
def words : Nat → List UInt8 → List UInt32
  | 0, _ => []
  | _, [] => []
  | n + 1, bytes => word bytes :: words n (bytes.drop 4)

/-- The next word of a schedule whose last sixteen words are given, latest first. -/
def nextWord (latest : List UInt32) : UInt32 :=
  let back (i : Nat) : UInt32 := (latest[i]?).getD 0
  let s0 := rotate (back 14) 7 ^^^ rotate (back 14) 18 ^^^ (back 14 >>> 3)
  let s1 := rotate (back 1) 17 ^^^ rotate (back 1) 19 ^^^ (back 1 >>> 10)
  back 15 + s0 + back 6 + s1

/-- A schedule, latest word first, with `n` more words. -/
def extend : Nat → List UInt32 → List UInt32
  | 0, latest => latest
  | n + 1, latest => extend n (nextWord latest :: latest)

/-- The sixty-four words of a block. -/
def schedule (block : List UInt32) : List UInt32 := (extend 48 block.reverse).reverse

/-- One round with a constant and a word of the schedule. -/
def step (state : List UInt32) (k w : UInt32) : List UInt32 :=
  match state with
  | [a, b, c, d, e, f, g, h] =>
    let s1 := rotate e 6 ^^^ rotate e 11 ^^^ rotate e 25
    let choice := (e &&& f) ^^^ (~~~e &&& g)
    let t1 := h + s1 + choice + k + w
    let s0 := rotate a 2 ^^^ rotate a 13 ^^^ rotate a 22
    let majority := (a &&& b) ^^^ (a &&& c) ^^^ (b &&& c)
    [t1 + (s0 + majority), a, b, c, d + t1, e, f, g]
  | other => other

/-- One block mixed into the state. -/
def compress (state block : List UInt32) : List UInt32 :=
  let mixed := (roundConstants.zip (schedule block)).foldl (fun s (k, w) => step s k w) state
  List.zipWith (· + ·) state mixed

/-- All blocks mixed in. The number of words bounds the steps. -/
def digestWords : Nat → List UInt32 → List UInt32 → List UInt32
  | 0, state, _ => state
  | _, state, [] => state
  | n + 1, state, ws => digestWords n (compress state (ws.take 16)) (ws.drop 16)

/-- The digest of a message as eight words. -/
def digest (message : List UInt8) : List UInt32 :=
  let ws := words (message.length + 72) (pad message)
  digestWords ws.length initialState ws

/-- The digits of a word in hexadecimal, eight of them. -/
def hexWord (w : UInt32) : List Char :=
  let ds := Nat.toDigits 16 w.toNat
  List.replicate (8 - ds.length) '0' ++ ds

/-- The digest of a text in hexadecimal. -/
def hex (s : String) : String := String.ofList ((digest s.toUTF8.toList).flatMap hexWord)

end StLint.Sha256
