/-!
# Seeded random numbers

`Twister` is the generator with a state of 624 words of 32 bits whose period is `2 ^ 19937 - 1`.  It is
seeded from the words of a number, `Twister.next` gives one word at a time, and `Twister.below` draws
an index below a bound.
-/

namespace Placement
set_option autoImplicit false

abbrev Words : Type := Vector UInt32 624

structure Twister where
  words : Words
  /-- How many words of the current block have been given out. -/
  used : Nat

namespace Twister

/-! ## Seeding -/

/-- The first of the two standard fillings: every word from the one before it. -/
def fill (seed : UInt32) : Words :=
  ((List.finRange 624).drop 1).foldl (fun (w : Words) (i : Fin 624) =>
    let previous := w[i - 1]
    w.set i ((1812433253 : UInt32) * (previous ^^^ (previous >>> 30)) + UInt32.ofNat i.val))
    (Vector.replicate 624 seed)

/-- Base `2 ^ 32` digits of a number, least significant first; zero has one digit. -/
def keyWords (n : Nat) : List UInt32 :=
  if n < 0x100000000 then [UInt32.ofNat n]
  else UInt32.ofNat (n % 0x100000000) :: keyWords (n / 0x100000000)
termination_by n

/-- Steps to the next position; past the last word the first one takes the value of the last. -/
def advance (w : Words) (i : Fin 624) : Words × Fin 624 :=
  if i.val = 623 then (w.set 0 w[(623 : Fin 624)], 1) else (w, i + 1)

def mixed (w : Words) (i : Fin 624) (factor : UInt32) : UInt32 :=
  let previous := w[i - 1]
  w[i] ^^^ ((previous ^^^ (previous >>> 30)) * factor)

/-- Mixes the words of a key into a filled state: once through the longer of key and state, then once
more through the state. -/
def ofKey (key : List UInt32) : Twister :=
  let rounds := max 624 key.length
  let keyed := (List.range rounds).foldl (fun (s : Words × Fin 624) k =>
    let j := k % key.length
    advance (s.1.set s.2 (mixed s.1 s.2 1664525 + key.getD j 0 + UInt32.ofNat j)) s.2)
    (fill 19650218, 1)
  let done := (List.range 623).foldl (fun (s : Words × Fin 624) _ =>
    advance (s.1.set s.2 (mixed s.1 s.2 1566083941 - UInt32.ofNat s.2.val)) s.2) keyed
  ⟨done.1.set 0 0x80000000, 624⟩

/-- The generator of a seed; seeds of equal magnitude give the same one. -/
def ofSeed (seed : Int) : Twister := ofKey (keyWords seed.natAbs)

/-! ## Drawing -/

def twist (w : Words) : Words :=
  (List.finRange 624).foldl (fun (w : Words) (i : Fin 624) =>
    let y := (w[i] &&& 0x80000000) ||| (w[i + 1] &&& 0x7fffffff)
    let shifted := if y &&& 1 = 0 then y >>> 1 else (y >>> 1) ^^^ 0x9908b0df
    w.set i (w[i + 397] ^^^ shifted)) w

def temper (y : UInt32) : UInt32 :=
  let y := y ^^^ (y >>> 11)
  let y := y ^^^ ((y <<< 7) &&& 0x9d2c5680)
  let y := y ^^^ ((y <<< 15) &&& 0xefc60000)
  y ^^^ (y >>> 18)

/-- The next word; a new block is made when all words of the current one have been given out. -/
def next (g : Twister) : UInt32 × Twister :=
  if h : g.used < 624 then (temper (g.words.get ⟨g.used, h⟩), ⟨g.words, g.used + 1⟩)
  else
    let words := twist g.words
    (temper words[(0 : Fin 624)], ⟨words, 1⟩)

def bitLength (n : Nat) : Nat := if n = 0 then 0 else n.log2 + 1

/-- Draws numbers of `bits` bits until one is below `n`, at most `fuel` of them. -/
def drawBelow (n bits : Nat) : Nat → Twister → Nat × Twister
  | 0, g => (0, g)
  | fuel + 1, g =>
    let (word, g) := g.next
    let r := word.toNat >>> (32 - bits)
    if r < n then (r, g) else drawBelow n bits fuel g

/-- An index below `n`, for `n` from one to `2 ^ 32 - 1`.  At least every second draw is expected to
be below `n`, so the bound on the number of draws is out of reach. -/
def below (n : Nat) (g : Twister) : Nat × Twister := drawBelow n (bitLength n) 100000 g

end Twister
end Placement
