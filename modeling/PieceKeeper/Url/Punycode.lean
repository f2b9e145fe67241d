/-!
# Punycode

A name with characters beyond ASCII, written in ASCII: the ASCII characters first, then for
each other character, from the lowest to the highest, the distance from the place of the one
before, as a numeral whose digits have changing weights.
-/

namespace PieceKeeper.Punycode

/-- The digit of a value below thirty-six. -/
def digit (value : Nat) : Char :=
  if value < 26 then Char.ofNat (0x61 + value) else Char.ofNat (0x30 + value - 26)

/-- Halves a distance until it is small, for the next threshold. -/
def shrink : Nat → Nat → Nat → Nat × Nat
  | 0, delta, k => (delta, k)
  | room + 1, delta, k => if 455 < delta then shrink room (delta / 35) (k + 36) else (delta, k)

/-- The bias after a distance, which tells how many digits the next one is likely to need. -/
def adapt (delta count : Nat) (isFirst : Bool) : Nat :=
  let delta := delta / (if isFirst then 700 else 2)
  let delta := delta + delta / count
  let (delta, k) := shrink delta delta 0
  k + 36 * delta / (delta + 38)

/-- The digits of a distance. -/
def digits (bias : Nat) : Nat → Nat → Nat → List Char
  | 0, _, _ => []
  | room + 1, k, q =>
    let threshold := if k ≤ bias then 1 else if bias + 26 ≤ k then 26 else k - bias
    if q < threshold then [digit q]
    else
      digit (threshold + (q - threshold) % (36 - threshold))
        :: digits bias room (k + 36) ((q - threshold) / (36 - threshold))

/-- How far an encoding has come. -/
structure State where
  delta : Nat := 0
  bias : Nat := 72
  /-- How many characters have been written. -/
  handled : Nat
  written : List Char

/-- Writes every place of one character, going through the whole name. -/
def writeAll (basic code : Nat) (state : State) (name : List Char) : State :=
  name.foldl
    (fun state c ↦
      if c.toNat < code then { state with delta := state.delta + 1 }
      else if c.toNat = code then
        { delta := 0
          bias := adapt state.delta (state.handled + 1) (state.handled == basic)
          handled := state.handled + 1
          written := state.written ++ digits state.bias (state.delta + 1) 36 state.delta }
      else state) state

/-- The characters beyond ASCII, each once, from the lowest to the highest. -/
def extras (name : List Char) : List Nat :=
  ((name.map Char.toNat).filter (0x80 ≤ ·)).mergeSort.eraseDups

/-- A name in ASCII. -/
def encode (name : List Char) : List Char :=
  let basic := name.filter (·.toNat < 0x80)
  let start : State :=
    { handled := basic.length, written := if basic.isEmpty then [] else basic ++ ['-'] }
  let (state, _) := (extras name).foldl
    (fun (state, floor) code ↦
      let delta := state.delta + (code - floor) * (state.handled + 1)
      let state := writeAll basic.length code { state with delta } name
      ({ state with delta := state.delta + 1 }, code + 1)) (start, 0x80)
  state.written

/-- The labels of a name, each in ASCII with a mark if it was not. -/
def encodeLabels (name : List Char) : List Char :=
  let labels := name.splitOn '.'
  let encoded := labels.map fun label ↦
    if label.all (·.toNat < 0x80) then label else "xn--".toList ++ encode label
  ['.'].intercalate encoded

end PieceKeeper.Punycode
