import Towing.Db.Ledger
import Mathlib.Algebra.Order.Floor.Semiring
import Mathlib.Algebra.Order.Round
import Mathlib.Data.Rat.Floor

namespace Towing.Money

open Towing.Db

/-! The two converters between paise and rupee strings, and the display of paise. -/

def trim (value : String) : List Char :=
  ((value.toList.dropWhile isJsSpace).reverse.dropWhile isJsSpace).reverse

/-- The groups of the pattern: an optional sign, digits, and a point with one or two more. -/
structure RupeeMatch where
  negative : Bool
  whole : List Char
  fraction : List Char
deriving DecidableEq

def matchRupees (cs : List Char) : Option RupeeMatch :=
  let negative := cs.head? = some '-'
  let unsigned := if negative then cs.tail else cs
  let whole := unsigned.takeWhile Char.isDigit
  if whole.isEmpty then none
  else
    match unsigned.dropWhile Char.isDigit with
    | [] => some ⟨negative, whole, []⟩
    | point :: fraction =>
      if point = '.' ∧ fraction.all Char.isDigit = true ∧ (fraction.length = 1 ∨ fraction.length = 2) then
        some ⟨negative, whole, fraction⟩
      else none

/-- The double nearest to a natural number, ties going to the even significand; `none` for
an infinity. -/
def nearestDouble (n : ℕ) : Option ℕ :=
  let unit := 2 ^ (n.log2 - 52)
  let significand :=
    if unit < 2 * (n % unit) ∨ 2 * (n % unit) = unit ∧ n / unit % 2 = 1 then n / unit + 1 else n / unit
  if significand * unit < 2 ^ 1024 then some (significand * unit) else none

/-- `Number` of a text of digits. -/
def digitsNumber (digits : List Char) : Option ℕ := nearestDouble (Nat.ofDigitChars 10 digits 0)

def padEnd (n : ℕ) (c : Char) (cs : List Char) : List Char := cs ++ List.replicate (n - cs.length) c

def padStart (n : ℕ) (c : Char) (cs : List Char) : List Char := List.replicate (n - cs.length) c ++ cs

/-- `Number(whole) * 100 + Number(fraction.padEnd(2, '0'))`. -/
def RupeeMatch.paise (m : RupeeMatch) : Option ℕ := do
  let whole ← digitsNumber m.whole
  let rupees ← nearestDouble (whole * 100)
  let fraction ← digitsNumber (padEnd 2 '0' m.fraction)
  nearestDouble (rupees + fraction)

def rupeeStringToPaise (value : String) : Except String JsNumber :=
  match matchRupees (trim value) with
  | none => .error ("Not a NUMERIC(12,2) rupee string: \"" ++ value ++ "\"")
  | some m =>
    match m.paise with
    | some paise => .ok (.int (if m.negative then -paise else paise))
    | none => .ok (.other (if m.negative then "-Infinity" else "Infinity"))

def digits (n : ℕ) : List Char := (toString n).toList

def paiseToRupeeString (paise : JsNumber) : Except String String :=
  if !paise.isSafeInteger then .error ("Not an integer paise amount: " ++ paise.toText)
  else
    let sign := if paise.toInt < 0 then ['-'] else []
    let abs := paise.toInt.natAbs
    .ok (String.ofList (sign ++ digits (abs / 100) ++ '.' :: padStart 2 '0' (digits (abs % 100))))

/-- A decimal as it is written. -/
structure Decimal where
  negative : Bool
  whole : List Char
  fraction : List Char
  whole_ne : whole ≠ []
  digits : ∀ c ∈ whole ++ fraction, c.isDigit = true

namespace Decimal

variable (x : Decimal)

def text : List Char :=
  (if x.negative then ['-'] else []) ++ x.whole ++ if x.fraction = [] then [] else '.' :: x.fraction

def value : ℚ :=
  (if x.negative then -1 else 1) *
    (Nat.ofDigitChars 10 x.whole 0 + Nat.ofDigitChars 10 x.fraction 0 / 10 ^ x.fraction.length)

/-- Two decimals, no zero in front of other digits, and no sign on nothing. -/
structure Canonical : Prop where
  fraction : x.fraction.length = 2
  whole : x.whole = ['0'] ∨ x.whole.head? ≠ some '0'
  sign : x.negative = true → x.value ≠ 0

end Decimal

end Towing.Money
