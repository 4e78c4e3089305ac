import QubitLab.Random.Source

/-!
# The ChaCha key stream as a random source

Random words are taken from the key stream of ChaCha with eight rounds. The key is
spread out of a 64-bit seed by a linear congruential generator; the nonce is zero
and the block counter starts at zero.

A draw from the unit interval takes the upper 53 bits of two words. A draw from
three values multiplies a word by three and keeps the upper half, after throwing
away the words that would favour one of the values.

## Main definitions

* `KeyStream.block`: Sixteen words of the key stream.
* `KeyStream`: The key, the next block, and the words left of the last one.
* `KeyStream.ofSeed`: The stream of a seed.
* `KeyStream.nextWord`, `KeyStream.nextLong`, `KeyStream.nextUnit`,
  `KeyStream.nextThird`: The draws.
-/

namespace QubitLab

namespace KeyStream

/-- The word with its bits moved up in a circle. -/
def rotateLeft (x n : UInt32) : UInt32 := (x <<< n) ||| (x >>> (32 - n))

/-- The word with its bits moved down in a circle. -/
def rotateRight (x n : UInt32) : UInt32 := (x >>> n) ||| (x <<< ((32 - n) % 32))

/-- The word at a position. -/
def word (b : Array UInt32) (i : Nat) : UInt32 := b.getD i 0

/-- The quarter round on four positions. -/
def quarterRound (i j k l : Nat) (b : Array UInt32) : Array UInt32 :=
  let a := word b i + word b j
  let d := rotateLeft (word b l ^^^ a) 16
  let c := word b k + d
  let e := rotateLeft (word b j ^^^ c) 12
  let a := a + e
  let d := rotateLeft (d ^^^ a) 8
  let c := c + d
  let e := rotateLeft (e ^^^ c) 7
  (((b.setIfInBounds i a).setIfInBounds j e).setIfInBounds k c).setIfInBounds l d

/-- A round on the columns and a round on the diagonals. -/
def doubleRound (b : Array UInt32) : Array UInt32 :=
  let b := quarterRound 0 4 8 12 b
  let b := quarterRound 1 5 9 13 b
  let b := quarterRound 2 6 10 14 b
  let b := quarterRound 3 7 11 15 b
  let b := quarterRound 0 5 10 15 b
  let b := quarterRound 1 6 11 12 b
  let b := quarterRound 2 7 8 13 b
  quarterRound 3 4 9 14 b

/-- The words of the phrase that every block starts with. -/
def constants : List UInt32 := [0x61707865, 0x3320646e, 0x79622d32, 0x6b206574]

/-- The block before the rounds: the phrase, the key, the counter from its lower
    half, and the nonce. -/
def initial (key : List UInt32) (counter : UInt64) : Array UInt32 :=
  (constants ++ key ++ [counter.toUInt32, (counter >>> 32).toUInt32, 0, 0]).toArray

/-- Sixteen words of the key stream: the block after eight rounds, added to the
    block before them. -/
def block (key : List UInt32) (counter : UInt64) : List UInt32 :=
  let start := initial key counter
  let mixed := doubleRound (doubleRound (doubleRound (doubleRound start)))
  (Array.zipWith (· + ·) start mixed).toList

/-- One step of the generator that spreads a seed. -/
def seedStep (s : UInt64) : UInt64 := s * 6364136223846793005 + 11634580027462260723

/-- The word that the generator gives in a state. -/
def seedWord (s : UInt64) : UInt32 :=
  rotateRight (((s >>> 18) ^^^ s) >>> 27).toUInt32 (s >>> 59).toUInt32

/-- The words of `n` steps of the generator. -/
def seedWords : Nat → UInt64 → List UInt32
  | 0, _ => []
  | n + 1, s =>
    let s := seedStep s
    seedWord s :: seedWords n s

end KeyStream

/-- A position in a key stream. -/
structure KeyStream where
  /-- The eight words of the key. -/
  key : List UInt32
  /-- The number of the next block. -/
  counter : UInt64
  /-- The words of the last block that are not used yet. -/
  pending : List UInt32
deriving DecidableEq, Repr

namespace KeyStream

/-- The start of the stream whose key is spread out of a seed. -/
def ofSeed (seed : UInt64) : KeyStream := ⟨seedWords 8 seed, 0, []⟩

/-- The next word. -/
def nextWord (s : KeyStream) : UInt32 × KeyStream :=
  match s.pending with
  | w :: rest => (w, { s with pending := rest })
  | [] =>
    match block s.key s.counter with
    | w :: rest => (w, { s with counter := s.counter + 1, pending := rest })
    | [] => (0, { s with counter := s.counter + 1 })

/-- The next two words as one, the first one being the lower half. -/
def nextLong (s : KeyStream) : UInt64 × KeyStream :=
  let (low, s) := s.nextWord
  let (high, s) := s.nextWord
  ((high.toUInt64 <<< 32) ||| low.toUInt64, s)

/-- A draw from the unit interval: a multiple of two to the minus 53. -/
def nextUnit (s : KeyStream) : Float × KeyStream :=
  let (long, s) := s.nextLong
  ((long >>> 11).toFloat.scaleB (-53), s)

/-- A product of a word and three that lies above this in its lower half would
    favour one of the three values. -/
def acceptedBelow : UInt64 := 0xC0000000

/-- A draw from three values that looks at no more than so many words. -/
def nextThirdWithin : Nat → KeyStream → Fin 3 × KeyStream
  | 0, s => (0, s)
  | n + 1, s =>
    let (w, s) := s.nextWord
    let product := w.toUInt64 * 3
    if product % 0x100000000 < acceptedBelow then
      (Fin.ofNat 3 (product >>> 32).toNat, s)
    else nextThirdWithin n s

/-- A draw from three values. A word is thrown away one time in four, so the bound
    on the number of words is never met. -/
def nextThird (s : KeyStream) : Fin 3 × KeyStream := nextThirdWithin 4096 s

instance : RandomSource Float KeyStream where
  ofSeed := ofSeed
  unit := nextUnit
  third := nextThird

end KeyStream

end QubitLab
