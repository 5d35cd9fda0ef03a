/-!
# Numbers

A text can be read as a number of three kinds: two ranges of integers and the doubles. Each kind has
a name, and a refusal is a reason in words.

An integer is read by accumulating its digits from left to right, and every step is checked: the
first character that is no digit, or the first digit that leaves the range, decides the outcome. A
double is given by the 64 bits of its binary format. A decimal text denotes an exact rational
number, and reading rounds it once, to the nearest double and to the even one of two that are
equally near. Numbers too large become infinite and numbers too small become zero.
-/

namespace HttpRouting

namespace Integer

inductive Fault where
  | empty
  | invalidDigit
  | tooLarge
  | tooSmall
deriving DecidableEq, Repr

def Fault.message : Fault → String
  | .empty => "cannot parse integer from empty string"
  | .invalidDigit => "invalid digit found in string"
  | .tooLarge => "number too large to fit in target type"
  | .tooSmall => "number too small to fit in target type"

def digit? (c : Char) : Option Nat :=
  if c.isDigit then some (c.toNat - '0'.toNat) else none

structure Range where
  low : Int
  high : Int
deriving DecidableEq, Repr

def Range.int : Range := ⟨-2147483648, 2147483647⟩

def Range.long : Range := ⟨-9223372036854775808, 9223372036854775807⟩

def ascend (range : Range) (n : Int) : List Char → Except Fault Int
  | [] => .ok n
  | c :: cs =>
      match digit? c with
      | none => .error .invalidDigit
      | some d => if range.high < n * 10 + d then .error .tooLarge else ascend range (n * 10 + d) cs

def descend (range : Range) (n : Int) : List Char → Except Fault Int
  | [] => .ok n
  | c :: cs =>
      match digit? c with
      | none => .error .invalidDigit
      | some d => if n * 10 - d < range.low then .error .tooSmall else descend range (n * 10 - d) cs

def read (range : Range) : List Char → Except Fault Int
  | [] => .error .empty
  | [c] => ascend range 0 [c]
  | c :: d :: cs =>
      if c = '+' then ascend range 0 (d :: cs)
      else if c = '-' then descend range 0 (d :: cs)
      else ascend range 0 (c :: d :: cs)

end Integer

structure Binary64 where
  bits : UInt64
deriving DecidableEq, Repr

namespace Binary64

inductive Fault where
  | empty
  | invalid
deriving DecidableEq, Repr

def Fault.message : Fault → String
  | .empty => "cannot parse float from empty string"
  | .invalid => "invalid float literal"

def signBit : Nat := 0x8000000000000000

def infinityBits : Nat := 0x7ff0000000000000

/-- The magnitude that is read for a text that names no number. -/
def nanBits : Nat := 0x7ff8000000000000

def isNaN (d : Binary64) : Bool := infinityBits < d.bits.toNat % signBit

/-- The quotient of two numbers rounded to the nearest integer, a half to the even one. -/
def roundDiv (num den : Nat) : Nat :=
  let q := num / den
  let r := num % den
  if 2 * r < den then q
  else if den < 2 * r then q + 1
  else q + q % 2

/-- The largest `e` with `2 ^ e ≤ num / den`, for positive numbers. -/
def floorLog (num den : Nat) : Int :=
  let e : Int := (num.log2 : Int) - den.log2
  let below := if 0 ≤ e then num < den <<< e.toNat else num <<< (-e).toNat < den
  if below then e - 1 else e

/-- The bits of the magnitude nearest to `num / den`. The unit in the last place is the power of
two that leaves 53 binary digits, but no less than the smallest denormal; the significand is added
to its exponent field, so a carry moves to the next binade by itself. -/
def roundedBits (num den : Nat) : Nat :=
  if num = 0 then 0
  else
    let unit := max (floorLog num den - 52) (-1074)
    let significand :=
      if 0 ≤ unit then roundDiv num (den <<< unit.toNat)
      else roundDiv (num <<< (-unit).toNat) den
    min infinityBits ((unit + 1074).toNat <<< 52 + significand)

/-- The bits of the magnitude nearest to `digits * 10 ^ exponent`, where `digits` has at most
`count` decimal digits. -/
def decimalBits (digits count : Nat) (exponent : Int) : Nat :=
  if digits = 0 || exponent + count < -400 then 0
  else if 400 < exponent then infinityBits
  else if 0 ≤ exponent then roundedBits (digits * Nat.pow 10 exponent.toNat) 1
  else roundedBits digits (Nat.pow 10 (-exponent).toNat)

private def digitsValue (cs : List Char) : Nat :=
  cs.foldl (fun n c => n * 10 + (c.toNat - '0'.toNat)) 0

def readExponent (cs : List Char) : Option Int :=
  let (negative, digits) :=
    match cs with
    | '-' :: rest => (true, rest)
    | '+' :: rest => (false, rest)
    | rest => (false, rest)
  if digits.isEmpty || !digits.all Char.isDigit then none
  else some (if negative then -(digitsValue digits) else digitsValue digits)

def readDecimal (cs : List Char) : Option Nat :=
  let whole := cs.takeWhile Char.isDigit
  let (fraction, rest) :=
    match cs.dropWhile Char.isDigit with
    | '.' :: rest => (rest.takeWhile Char.isDigit, rest.dropWhile Char.isDigit)
    | rest => ([], rest)
  let digits := whole ++ fraction
  let exponent : Option Int :=
    match rest with
    | [] => some 0
    | c :: rest => if c = 'e' || c = 'E' then readExponent rest else none
  if digits.isEmpty then none
  else exponent.map fun e => decimalBits (digitsValue digits) digits.length (e - fraction.length)

def readMagnitude (cs : List Char) : Option Nat :=
  let word := String.ofList (cs.map Char.toLower)
  if word = "inf" || word = "infinity" then some infinityBits
  else if word = "nan" then some nanBits
  else readDecimal cs

def read (cs : List Char) : Except Fault Binary64 :=
  let (sign, magnitude) :=
    match cs with
    | '-' :: rest => (signBit, rest)
    | '+' :: rest => (0, rest)
    | rest => (0, rest)
  if cs.isEmpty then .error .empty
  else match readMagnitude magnitude with
    | none => .error .invalid
    | some bits => .ok ⟨UInt64.ofNat (sign + bits)⟩

example : read ['1'] = .ok ⟨0x3ff0000000000000⟩ := by rfl

end Binary64

inductive NumberKind where
  | int
  | long
  | double
deriving DecidableEq, Repr

inductive Number where
  | integer (n : Int)
  | double (d : Binary64)
deriving DecidableEq, Repr

namespace NumberKind

def name : NumberKind → String
  | .int => "int"
  | .long => "long"
  | .double => "double"

def readInteger (range : Integer.Range) (text : String) : Except String Number :=
  match Integer.read range text.toList with
  | .ok n => .ok (.integer n)
  | .error fault => .error fault.message

def read : NumberKind → String → Except String Number
  | .int, text => readInteger .int text
  | .long, text => readInteger .long text
  | .double, text =>
      match Binary64.read text.toList with
      | .ok d => .ok (.double d)
      | .error fault => .error fault.message

theorem readInteger_eq (range : Integer.Range) (text : String) :
    readInteger range text =
      ((Integer.read range text.toList).map Number.integer).mapError Integer.Fault.message := by
  rw [readInteger]
  cases Integer.read range text.toList <;> rfl

end NumberKind

end HttpRouting
