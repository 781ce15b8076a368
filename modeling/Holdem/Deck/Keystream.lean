/-!
# A seeded stream of random words

The stream is that of the ChaCha cipher with 20 rounds: `block` maps a key of eight words and a
block number to sixteen output words, and `word` numbers the words of all blocks in order.
`keyOfSeed` expands a seed of 64 bits to a key: a linear congruential state is stepped once per
word and permuted to the word. It is the generator that the deck is shuffled with, as the library
for random numbers documents it.

Out of scope: streams other than the first, and seeking in a stream.
-/

namespace Holdem.Keystream

/-! ## The key of a seed -/

/-- One step of the 64-bit state behind the key. -/
def stepState (state : UInt64) : UInt64 := state * 6364136223846793005 + 11634580027462260723

/-- A word turned right by `n` bits. -/
def rotateRight (x : UInt32) (n : UInt32) : UInt32 := (x >>> n) ||| (x <<< (32 - n))

/-- The key word of a state: its high bits, folded, turned by its five highest. -/
def keyWord (state : UInt64) : UInt32 :=
  rotateRight (((state >>> 18) ^^^ state) >>> 27).toUInt32 (state >>> 59).toUInt32

/-- The words of `n` states after `state`. -/
def keyWords : Nat → UInt64 → List UInt32
  | 0, _ => []
  | n + 1, state => keyWord (stepState state) :: keyWords n (stepState state)

/-- The key of a seed, eight words. -/
def keyOfSeed (seed : UInt64) : List UInt32 := keyWords 8 seed

/-! ## Blocks -/

/-- The sixteen words that the rounds work on. -/
abbrev Block := Array UInt32

/-- A word turned left by `n` bits. -/
def rotateLeft (x : UInt32) (n : UInt32) : UInt32 := (x <<< n) ||| (x >>> (32 - n))

/-- The word at a place, zero outside the block. -/
def at' (x : Block) (i : Nat) : UInt32 := x.getD i 0

/-- Adds word `j` to word `i`, then mixes word `k` with it and turns it. -/
def mix (x : Block) (i j k : Nat) (n : UInt32) : Block :=
  let x := x.setIfInBounds i (at' x i + at' x j)
  x.setIfInBounds k (rotateLeft (at' x k ^^^ at' x i) n)

/-- A quarter round on four words. -/
def quarter (x : Block) (a b c d : Nat) : Block :=
  mix (mix (mix (mix x a b d 16) c d b 12) a b d 8) c d b 7

/-- The eight quarter rounds of a column round and a diagonal round. -/
def doubleRound (x : Block) : Block :=
  let x := quarter (quarter (quarter (quarter x 0 4 8 12) 1 5 9 13) 2 6 10 14) 3 7 11 15
  quarter (quarter (quarter (quarter x 0 5 10 15) 1 6 11 12) 2 7 8 13) 3 4 9 14

/-- `n` double rounds. -/
def rounds : Nat → Block → Block
  | 0, x => x
  | n + 1, x => rounds n (doubleRound x)

/-- The block before the rounds: constants, key, block number, and a nonce of zeros. -/
def start (key : List UInt32) (number : Nat) : Block :=
  ([0x61707865, 0x3320646e, 0x79622d32, 0x6b206574] ++ key ++
    [UInt32.ofNat number, UInt32.ofNat (number / 4294967296), 0, 0]).toArray

/-- A block of output: the rounds of the start block, added to it. -/
def block (key : List UInt32) (number : Nat) : Block :=
  let x := start key number
  Array.zipWith (· + ·) (rounds 10 x) x

/-- Word `i` of the stream. -/
def word (key : List UInt32) (i : Nat) : Nat := (at' (block key (i / 16)) (i % 16)).toNat

end Holdem.Keystream
