/-
Numbers of the 64-bit binary format, in exact arithmetic.

A finite number is a sign, a coefficient below 2^53 and a power of two between 2^-1074 and 2^971; beside these there
are two infinities and the undefined number. Every operation is the exact one followed by `ofRatio`, which gives the
nearest number of the format, a tie going to the even coefficient. Nothing here is a machine float, so all of it can
be computed and reasoned about.
-/

namespace TapeMachine

/-- a number of the format; a finite one is `coefficient * 2 ^ exponent` under its sign -/
inductive Binary64 where
  | finite (negative : Bool) (coefficient : Nat) (exponent : Int)
  | infinite (negative : Bool)
  | undefined
deriving DecidableEq, Repr

namespace Binary64

/-- the whole number nearest to `num / den`; a tie goes to the even one -/
def nearest (num den : Nat) : Nat :=
  let q := num / den
  let r := num % den
  if 2 * r < den then q else if den < 2 * r then q + 1 else if q % 2 = 0 then q else q + 1

/-- the greatest `k` with `2 ^ k ≤ num / den`, for positive arguments -/
def binaryOrder (num den : Nat) : Int :=
  let k : Int := (Nat.log2 num : Int) - Nat.log2 den
  if den * Nat.pow 2 k.toNat ≤ num * Nat.pow 2 (-k).toNat then k else k - 1

/-- the number of the format nearest to `num / den`, under the given sign -/
def ofRatio (negative : Bool) (num den : Nat) : Binary64 :=
  if num = 0 then .finite negative 0 (-1074)
  else
    let e := max (binaryOrder num den - 52) (-1074)
    let m := nearest (num * Nat.pow 2 (-e).toNat) (den * Nat.pow 2 e.toNat)
    let (m, e) := if m = Nat.pow 2 53 then (Nat.pow 2 52, e + 1) else (m, e)
    if e ≤ 971 then .finite negative m e else .infinite negative

/-- the nearest number to an exact quotient -/
def ofRat (q : Rat) : Binary64 := ofRatio (decide (q < 0)) q.num.natAbs q.den

/-- the exact value of a finite number -/
def toRat? : Binary64 → Option Rat
  | .finite s m e =>
    let v : Rat := (m * Nat.pow 2 e.toNat : Nat) / (Nat.pow 2 (-e).toNat : Nat)
    some (if s then -v else v)
  | _ => none

def isNegative : Binary64 → Bool
  | .finite s _ _ => s
  | .infinite s => s
  | .undefined => false

/-- difference; an infinity outweighs every finite number -/
def sub : Binary64 → Binary64 → Binary64
  | .undefined, _ => .undefined
  | _, .undefined => .undefined
  | .infinite s, .infinite t => if s = t then .undefined else .infinite s
  | .infinite s, _ => .infinite s
  | _, .infinite t => .infinite !t
  | x, y => ofRat (x.toRat?.getD 0 - y.toRat?.getD 0)

/-- product with a positive whole number -/
def scale (x : Binary64) (k : Nat) : Binary64 :=
  match x with
  | .finite s m e => ofRatio s (m * Nat.pow 2 e.toNat * k) (Nat.pow 2 (-e).toNat)
  | x => x

/-- quotient by a positive whole number -/
def divide (x : Binary64) (k : Nat) : Binary64 :=
  match x with
  | .finite s m e => ofRatio s (m * Nat.pow 2 e.toNat) (Nat.pow 2 (-e).toNat * k)
  | x => x

/-- the whole number nearest to the magnitude of a finite number; a tie goes to the even one -/
def roundedMagnitude : Binary64 → Nat
  | .finite _ m e => nearest (m * Nat.pow 2 e.toNat) (Nat.pow 2 (-e).toNat)
  | _ => 0

/-- the nearest whole number -/
def round (x : Binary64) : Int := if x.isNegative then -(x.roundedMagnitude : Int) else x.roundedMagnitude

/-- the nearest whole number, written with the sign of the number even when it is zero -/
def roundedText (x : Binary64) : String :=
  let magnitude := match x with
    | .undefined => "nan"
    | .infinite _ => "inf"
    | x => toString x.roundedMagnitude
  (if x.isNegative then "-" else "") ++ magnitude

/-- order of finite numbers and infinities; the undefined number is below and above nothing -/
def lt : Binary64 → Binary64 → Bool
  | .undefined, _ => false
  | _, .undefined => false
  | .infinite s, .infinite t => s && !t
  | .infinite s, _ => s
  | _, .infinite t => !t
  | x, y => decide (x.toRat?.getD 0 < y.toRat?.getD 0)

/-- the nearest number to `digits * 10 ^ exponent`; beyond 10^310 and below 10^-330 no power is computed, since the
answer is infinite or zero there -/
def ofDecimal (negative : Bool) (digits : Nat) (exponent : Int) : Binary64 :=
  let l := Nat.log2 digits
  if digits = 0 ∨ exponent + (l / 3 + 1 : Nat) < -330 then .finite negative 0 (-1074)
  else if 310 ≤ exponent + (3 * l / 10 : Nat) then .infinite negative
  else ofRatio negative (digits * Nat.pow 10 exponent.toNat) (Nat.pow 10 (-exponent).toNat)

end Binary64
end TapeMachine
