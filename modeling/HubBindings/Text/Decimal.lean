/-!
Decimal digits: the number they denote, how it is written, and whether it fits a machine word or a
double.
-/

namespace HubBindings.Text

/-- The number that a sequence of decimal digits denotes. -/
def decimalNumber (ds : List Char) : Nat :=
  ds.foldl (fun n c => 10 * n + (c.toNat - '0'.toNat)) 0

/-- The digits of a number, with zeros in front up to a width. -/
def padded (width n : Nat) : String :=
  let ds := Nat.toDigits 10 n
  String.ofList (List.replicate (width - ds.length) '0' ++ ds)

/-- Splits off the leading decimal digits. -/
def spanDigits (cs : List Char) : List Char × List Char := cs.span Char.isDigit

/-- The value of a hexadecimal digit. -/
def hexValue? (c : Char) : Option Nat :=
  if '0' ≤ c ∧ c ≤ '9' then some (c.toNat - '0'.toNat)
  else if 'a' ≤ c ∧ c ≤ 'f' then some (c.toNat - 'a'.toNat + 10)
  else if 'A' ≤ c ∧ c ≤ 'F' then some (c.toNat - 'A'.toNat + 10)
  else none

/-- The number that a sequence of digits denotes in base `base`. -/
def numberIn? (base : Nat) (ds : List Char) : Option Nat :=
  ds.foldlM (fun n c =>
    (hexValue? c).bind fun d => if d < base then some (base * n + d) else none) 0

/-- The least number that does not fit 64 bits. -/
def wordLimit : Nat := Nat.pow 2 64

/-- Appends digits to a number as long as it fits 64 bits. Also returns how many digits are left
over. -/
def appendDigits (n : Nat) : List Char → Nat × Nat
  | [] => (n, 0)
  | c :: rest =>
    let next := 10 * n + (c.toNat - '0'.toNat)
    if next < wordLimit then appendDigits next rest else (n, rest.length + 1)

/-! ## Doubles -/

/-- The least magnitude that rounds to infinity as a double. -/
def doubleLimit : Nat := Nat.pow 2 1024 - Nat.pow 2 970

/-- Whether `m * 10 ^ e` is below the range where doubles end. Sizes that the number of digits
settles are not computed. -/
def fitsDouble (m : Nat) (e : Int) : Bool :=
  let magnitude : Int := (Nat.toDigits 10 m).length + e
  if m = 0 || magnitude ≤ 308 then true
  else if magnitude > 310 then false
  else if 0 ≤ e then m * Nat.pow 10 e.toNat < doubleLimit
  else m < doubleLimit * Nat.pow 10 (-e).toNat

/-- The nearest number with 53 significant bits; of two, the one with an even last bit. -/
def roundToDouble (n : Nat) : Nat :=
  let unit := Nat.pow 2 (n.log2 - 52)
  let whole := n / unit
  let rest := 2 * (n % unit)
  let nearest := if rest > unit || (rest = unit && whole % 2 = 1) then whole + 1 else whole
  nearest * unit

/-- Whether the product of `m` and `10 ^ e` stays below the range where doubles end, if both are
rounded to doubles first. No power of ten above `10 ^ 308` is a double, and a negative power leads
towards zero. -/
def productFitsDouble (m : Nat) (e : Int) : Bool :=
  if m = 0 || e < 0 then true
  else if e > 308 then false
  else roundToDouble m * roundToDouble (Nat.pow 10 e.toNat) < doubleLimit

end HubBindings.Text
