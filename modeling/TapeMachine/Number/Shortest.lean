/-
The shortest decimal text of a 64-bit number.

Of all decimals that read back as the number, the one with the fewest digits is written, and of those the nearest one.
For each count of digits from 1 to 17 only the two neighbours of the number on that decimal grid can qualify, so the
search tries these, in exact arithmetic, with the very function that reads decimals.
-/
import TapeMachine.Number.Binary64

namespace TapeMachine.Binary64

/-- the power `k` with `10 ^ (k - 1) ≤ num / den < 10 ^ k`, for a positive quotient, searched upwards from `k` -/
def decimalOrderFrom (num den : Nat) : Nat → Int → Int
  | 0, k => k
  | fuel + 1, k =>
    if num * Nat.pow 10 (-k).toNat < den * Nat.pow 10 k.toNat then k else decimalOrderFrom num den fuel (k + 1)

/-- the number of digits before the point, negative or zero when the number starts with zeros after the point; the
binary order is within one of it after scaling by the logarithm of two -/
def decimalOrder (num den : Nat) : Int :=
  decimalOrderFrom num den 4 (binaryOrder num den * 30103 / 100000)

/-- the distance of `c * 10 ^ g` from `num / den`, times `den` and a power of ten that depends on `g` alone -/
def gridDistance (num den c : Nat) (g : Int) : Nat :=
  let a := c * Nat.pow 10 g.toNat * den
  let b := num * Nat.pow 10 (-g).toNat
  if a < b then b - a else a - b

/-- the decimal `c * 10 ^ g` with `n` digits that reads back as the positive number `x`, if one does -/
def onGrid (x : Binary64) (num den : Nat) (k : Int) (n : Nat) : Option (Nat × Int) :=
  let g := k - n
  let lo := num * Nat.pow 10 (-g).toNat / (den * Nat.pow 10 g.toNat)
  let reads := fun c => decide (ofDecimal false c g = x)
  match reads lo, reads (lo + 1) with
  | true, true =>
    let a := gridDistance num den lo g
    let b := gridDistance num den (lo + 1) g
    some (if a < b ∨ (a = b ∧ lo % 2 = 0) then lo else lo + 1, g)
  | true, false => some (lo, g)
  | false, true => some (lo + 1, g)
  | false, false => none

/-- `c * 10 ^ g` without zeros at the end of `c` -/
def stripZeros : Nat → Nat → Int → Nat × Int
  | 0, c, g => (c, g)
  | fuel + 1, c, g => if c % 10 = 0 ∧ c ≠ 0 then stripZeros fuel (c / 10) (g + 1) else (c, g)

/-- digits and power of ten of the shortest decimal of a positive finite number -/
def shortest (m : Nat) (e : Int) : Nat × Int :=
  let num := m * Nat.pow 2 e.toNat
  let den := Nat.pow 2 (-e).toNat
  let k := decimalOrder num den
  match (List.range 17).findSome? fun i => onGrid (.finite false m e) num den k (i + 1) with
  | some (c, g) => stripZeros 18 c g
  | none => (0, 0)

/-- how decimals are laid out: positional when the first digit's power of ten is at least `least` and below `bound`,
and otherwise with an exponent of at least two digits -/
structure Layout where
  least : Int := -4
  bound : Int := 16

/-- the text of `c * 10 ^ g` -/
def Layout.text (l : Layout) (c : Nat) (g : Int) : String :=
  let ds := Nat.toDigits 10 c
  let point : Int := ds.length + g
  if l.least ≤ point - 1 ∧ point - 1 < l.bound then
    if point ≤ 0 then String.ofList ('0' :: '.' :: List.replicate (-point).toNat '0' ++ ds)
    else if ds.length ≤ point then String.ofList (ds ++ List.replicate g.toNat '0' ++ ['.', '0'])
    else String.ofList (ds.take point.toNat ++ '.' :: ds.drop point.toNat)
  else
    let lead := match ds with
      | [d] => [d]
      | d :: rest => d :: '.' :: rest
      | [] => []
    let power := Nat.toDigits 10 (point - 1).natAbs
    let width := if power.length < 2 then '0' :: power else power
    String.ofList (lead ++ 'e' :: (if point - 1 < 0 then '-' else '+') :: width)

/-- the shortest text that reads back as the number -/
def text : Binary64 → String
  | .undefined => "nan"
  | .infinite s => if s then "-inf" else "inf"
  | .finite s 0 _ => if s then "-0.0" else "0.0"
  | .finite s m e =>
    let (c, g) := shortest m e
    (if s then "-" else "") ++ Layout.text {} c g

end TapeMachine.Binary64
