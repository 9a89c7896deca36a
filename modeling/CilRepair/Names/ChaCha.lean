import CilRepair.Names.Registry

/-!
# A seeded source of draws

A stream cipher with twelve rounds whose key is spread out of a seed of 64 bits. Its blocks of
sixteen words are used in order; a draw takes one word or two and is made uniform by drawing again
where the range does not divide the space of words.

## Main definitions

* `ChaCha.ofSeed`: the state at the beginning of the stream of a seed.
* `ChaCha.block`: a block of the stream.
* `ChaCha.word`, `ChaCha.pair`: the next word, the next two words as one number.
* the instance `DrawSource ChaCha`.
-/

namespace CilRepair

/-- The stream of a key: the words of the current block that are left, and the block that
follows. -/
structure ChaCha where
  key : List UInt32
  counter : UInt64
  rest : List UInt32
  deriving DecidableEq

namespace ChaCha

/-! ### The key -/

/-- A word rotated to the right. -/
def rotateRight (x amount : UInt32) : UInt32 :=
  x >>> amount ||| x <<< ((32 - amount) % 32)

/-- A word rotated to the left. -/
def rotateLeft (x amount : UInt32) : UInt32 := x <<< amount ||| x >>> (32 - amount)

/-- The state after another in the linear congruence that spreads a seed. -/
def spread (s : UInt64) : UInt64 := s * 6364136223846793005 + 11634580027462260723

/-- The word that a state of the congruence stands for: its high bits folded, then rotated by the
highest five. -/
def spreadWord (s : UInt64) : UInt32 :=
  rotateRight ((s >>> 18 ^^^ s) >>> 27).toUInt32 (s >>> 59).toUInt32

/-- The words of a seed. -/
def spreadWords : Nat → UInt64 → List UInt32
  | 0, _ => []
  | n + 1, s => let s := spread s; spreadWord s :: spreadWords n s

/-! ### Blocks -/

/-- A state of the cipher. -/
abbrev State := Vector UInt32 16

/-- One round on four words of a state. -/
def quarterRound (s : State) (a b c d : Fin 16) : State :=
  let mix (s : State) (x y z : Fin 16) (amount : UInt32) : State :=
    let s := s.set x (s[x] + s[y])
    s.set z (rotateLeft (s[z] ^^^ s[x]) amount)
  let s := mix s a b d 16
  let s := mix s c d b 12
  let s := mix s a b d 8
  mix s c d b 7

/-- A round on the columns and one on the diagonals. -/
def doubleRound (s : State) : State :=
  let s := quarterRound s 0 4 8 12
  let s := quarterRound s 1 5 9 13
  let s := quarterRound s 2 6 10 14
  let s := quarterRound s 3 7 11 15
  let s := quarterRound s 0 5 10 15
  let s := quarterRound s 1 6 11 12
  let s := quarterRound s 2 7 8 13
  quarterRound s 3 4 9 14

/-- Some double rounds. -/
def rounds : Nat → State → State
  | 0, s => s
  | n + 1, s => rounds n (doubleRound s)

/-- The words that every state begins with. -/
def constants : List UInt32 := [0x61707865, 0x3320646e, 0x79622d32, 0x6b206574]

/-- The state that a block is computed from. -/
def initial (key : List UInt32) (counter : UInt64) : State :=
  let words := constants ++ key ++ [counter.toUInt32, (counter >>> 32).toUInt32, 0, 0]
  Vector.ofFn fun i => words.getD i.val 0

/-- **A block of the stream:** the state after twelve rounds, added to the one before. -/
def block (key : List UInt32) (counter : UInt64) : List UInt32 :=
  let start := initial key counter
  (Vector.zipWith (· + ·) (rounds 6 start) start).toList

/-- The beginning of the stream of a seed. -/
def ofSeed (seed : UInt64) : ChaCha := ⟨spreadWords 8 seed, 0, []⟩

/-! ### Draws -/

/-- **The next word.** -/
def word (s : ChaCha) : UInt32 × ChaCha :=
  match s.rest with
  | x :: rest => (x, { s with rest })
  | [] =>
    match block s.key s.counter with
    | x :: rest => (x, { s with counter := s.counter + 1, rest })
    | [] => (0, s)

/-- The next two words as one number, the low one first. -/
def pair (s : ChaCha) : UInt64 × ChaCha :=
  let (low, s) := s.word
  let (high, s) := s.word
  (low.toUInt64 ||| high.toUInt64 <<< 32, s)

/-- How often a draw is made again at most. A draw has to be made again with a probability below one
fifth, so that this limit stands for none. -/
def redraws : Nat := 1000

/-- **An index below a range.** A number of the given width is multiplied by the range; the high part
of the product is the index if the low part is in the zone where every index is equally likely. -/
def index (width range zone : Nat) (next : ChaCha → Nat × ChaCha) : (redraws : Nat) → ChaCha →
    Nat × ChaCha
  | redraws, s =>
    let (x, s) := next s
    let product := x * range
    match redraws with
    | 0 => (product >>> width, s)
    | redraws + 1 =>
      if product % Nat.pow 2 width ≤ zone then (product >>> width, s)
      else index width range zone next redraws s

/-- The zone for letters. -/
def letterZone : Nat := 52 <<< 58 - 1

/-- The zone for suffixes. -/
def suffixZone : Nat := UInt32.size - 1 - (UInt32.size - 9000) % 9000

/-- The next two words as a natural number. -/
def nextPair (s : ChaCha) : Nat × ChaCha := let (x, s) := s.pair; (x.toNat, s)

/-- The next word as a natural number. -/
def nextWord (s : ChaCha) : Nat × ChaCha := let (x, s) := s.word; (x.toNat, s)

instance : DrawSource ChaCha where
  letter s := let (i, s) := index 64 52 letterZone nextPair redraws s; (Fin.ofNat 52 i, s)
  suffix s := let (i, s) := index 32 9000 suffixZone nextWord redraws s; (Fin.ofNat 9000 i, s)

end ChaCha

end CilRepair
