/-!
# Draws

The sample at a position of a generation depends on the seed, the number of the
generation and the position alone. The three are mixed into a key, the key is spread
over a seed of eight words, and the sample is made of the first two words of the
keystream with twelve rounds under that seed.
-/

namespace LSystems.Draw

/-! ## Keys -/

def mix (word : UInt64) : UInt64 :=
  let word := word + 0x9e3779b97f4a7c15
  let word := (word ^^^ (word >>> 30)) * 0xbf58476d1ce4e5b9
  let word := (word ^^^ (word >>> 27)) * 0x94d049bb133111eb
  word ^^^ (word >>> 31)

def key (seed step position : UInt64) : UInt64 :=
  mix (mix (mix seed ^^^ step) ^^^ position)

example : key 0 0 0 = 2558736989570252433 := by decide +kernel

/-! ## Keystream -/

structure Row where
  first : UInt32
  second : UInt32
  third : UInt32
  fourth : UInt32

namespace Row

def map (change : UInt32 → UInt32) (row : Row) : Row :=
  ⟨change row.first, change row.second, change row.third, change row.fourth⟩

def zip (join : UInt32 → UInt32 → UInt32) (left right : Row) : Row :=
  ⟨join left.first right.first, join left.second right.second,
    join left.third right.third, join left.fourth right.fourth⟩

def turn (row : Row) : Row :=
  ⟨row.second, row.third, row.fourth, row.first⟩

end Row

def rotateLeft (bits : UInt32) (word : UInt32) : UInt32 :=
  (word <<< bits) ||| (word >>> (32 - bits))

structure Block where
  a : Row
  b : Row
  c : Row
  d : Row

namespace Block

def mixColumns (block : Block) : Block :=
  let a := block.a.zip (· + ·) block.b
  let d := (block.d.zip (· ^^^ ·) a).map (rotateLeft 16)
  let c := block.c.zip (· + ·) d
  let b := (block.b.zip (· ^^^ ·) c).map (rotateLeft 12)
  let a := a.zip (· + ·) b
  let d := (d.zip (· ^^^ ·) a).map (rotateLeft 8)
  let c := c.zip (· + ·) d
  let b := (b.zip (· ^^^ ·) c).map (rotateLeft 7)
  ⟨a, b, c, d⟩

def doubleRound (block : Block) : Block :=
  let block := block.mixColumns
  let block :=
    mixColumns ⟨block.a, block.b.turn, block.c.turn.turn, block.d.turn.turn.turn⟩
  ⟨block.a, block.b.turn.turn.turn, block.c.turn.turn, block.d.turn⟩

/-- The block before the first round: a constant row, eight words of seed, and a counter
at zero. -/
def ofSeed (low high : Row) : Block :=
  ⟨⟨0x61707865, 0x3320646e, 0x79622d32, 0x6b206574⟩, low, high, ⟨0, 0, 0, 0⟩⟩

def firstRow (block : Block) : Row :=
  (Nat.repeat doubleRound 6 block).a.zip (· + ·) block.a

end Block

/-! ## Samples -/

def spread (state : UInt64) : UInt64 :=
  state * 6364136223846793005 + 11634580027462260723

def spreadWord (state : UInt64) : UInt32 :=
  let shifted := (((state >>> 18) ^^^ state) >>> 27).toUInt32
  let turns := (state >>> 59).toUInt32
  (shifted >>> turns) ||| (shifted <<< ((32 - turns) % 32))

def spreadRow (state : UInt64) : Row × UInt64 :=
  let first := spread state
  let second := spread first
  let third := spread second
  let fourth := spread third
  (⟨spreadWord first, spreadWord second, spreadWord third, spreadWord fourth⟩, fourth)

def firstWord (key : UInt64) : UInt64 :=
  let (low, state) := spreadRow key
  let (high, _) := spreadRow state
  let row := (Block.ofSeed low high).firstRow
  row.first.toUInt64 ||| (row.second.toUInt64 <<< 32)

/-- The sample at a position in a step: a multiple of `2 ^ -53` from zero up to but
without one. -/
def sample (seed step position : UInt64) : Float :=
  (firstWord (key seed step position) >>> 11).toFloat / 9007199254740992

end LSystems.Draw
