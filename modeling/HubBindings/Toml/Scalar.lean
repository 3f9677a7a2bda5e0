import HubBindings.Text.Decimal
import HubBindings.Toml.Value

/-!
Scalars of TOML that are written without quotes: booleans, integers, floats and dates. A scalar is
recognised from its whole spelling. A number that is well formed but has no value is kept as such:
only who looks at it refuses it.
-/

namespace HubBindings.Toml

open Text

/-- Removes the underscores from a digit sequence. Each has to stand between two digits. -/
def joinGroups? (isDigit : Char → Bool) : List Char → Option (List Char)
  | [] => none
  | [c] => if isDigit c then some [c] else none
  | c :: '_' :: rest => if isDigit c then (joinGroups? isDigit rest).map (c :: ·) else none
  | c :: rest => if isDigit c then (joinGroups? isDigit rest).map (c :: ·) else none

/-- Whether a character is a digit in base `base`. -/
def isDigitIn (base : Nat) (c : Char) : Bool :=
  match hexValue? c with
  | some d => d < base
  | none => false

/-- The digits of a decimal integer: no superfluous zeros in front. -/
def wholeDigits? (cs : List Char) : Option (List Char) :=
  match joinGroups? Char.isDigit cs with
  | some ('0' :: _ :: _) => none
  | ds => ds

/-- Splits off a sign. -/
def spanSign : List Char → Int × List Char
  | '-' :: rest => (-1, rest)
  | '+' :: rest => (1, rest)
  | cs => (1, cs)

/-- Integers are held in 128 bits, with or without a sign. -/
def isRepresentable (n : Int) : Bool :=
  -Int.ofNat (Nat.pow 2 127) ≤ n && n < Int.ofNat (Nat.pow 2 128)

/-- The value of an integer literal. Beyond the range it has none. -/
def ofInteger (n : Int) : Toml := if isRepresentable n then .integer n else .unreadable

/-- Reads the digits after a radix. A radix alone is a number without a value. -/
def radixDigits? (base : Nat) : List Char → Option Toml
  | [] => some .unreadable
  | ds => ((joinGroups? (isDigitIn base) ds).bind (numberIn? base)).map fun n => ofInteger n

/-- Whether each underscore stands between two hexadecimal digits. `before` is the character in
front. -/
def isGrouped (before : Char) : List Char → Bool
  | [] => before != '_'
  | c :: rest =>
    (c != '_' || isDigitIn 16 before) && (before != '_' || isDigitIn 16 c) && isGrouped c rest

/-- Whether a spelling is a decimal integer by its outline only: a first group of digits, no
superfluous zeros in front, underscores between hexadecimal digits, no space, and nothing that marks
a float. -/
def hasIntegerOutline (cs : List Char) : Bool :=
  match spanDigits cs with
  | (d :: _, '_' :: rest) =>
    d != '0' && isGrouped d ('_' :: rest) &&
      !rest.any fun c => c == ' ' || c == '.' || c == 'e' || c == 'E'
  | _ => false

/-- Reads an integer: decimal with an optional sign, or digits after `0x`, `0o` or `0b`. A decimal
integer with other characters in its groups is a number without a value. -/
def integer? : List Char → Option Toml
  | '0' :: 'x' :: ds => radixDigits? 16 ds
  | '0' :: 'o' :: ds => radixDigits? 8 ds
  | '0' :: 'b' :: ds => radixDigits? 2 ds
  | cs =>
    let (sign, body) := spanSign cs
    match wholeDigits? body with
    | some ds => some (ofInteger (sign * (decimalNumber ds : Int)))
    | none => if hasIntegerOutline body then some .unreadable else none

/-- Splits at the first character with a property and drops it. -/
def splitAt? (p : Char → Bool) (cs : List Char) : List Char × Option (List Char) :=
  match cs.span fun c => !p c with
  | (before, _ :: after) => (before, some after)
  | (before, []) => (before, none)

/-- Reads a float: a decimal integer, then a fraction, an exponent or both; or `inf` and `nan` with
an optional sign. Beyond the range of a double it has no value. -/
def float? (cs : List Char) : Option Toml :=
  let (_, body) := spanSign cs
  if body == ['i', 'n', 'f'] || body == ['n', 'a', 'n'] then some (.float (String.ofList cs))
  else
    let (mantissa, exponent) := splitAt? (fun c => c == 'e' || c == 'E') body
    let (whole, fraction) := splitAt? (· == '.') mantissa
    if fraction.isNone && exponent.isNone then none
    else
      let fractionDigits? := match fraction with
        | some ds => joinGroups? Char.isDigit ds
        | none => some []
      let exponent? : Option Int := match exponent with
        | some es =>
          let (sign, ds) := spanSign es
          (joinGroups? Char.isDigit ds).map fun ds => sign * (decimalNumber ds : Int)
        | none => some 0
      match wholeDigits? whole, fractionDigits?, exponent? with
      | some ws, some fs, some e =>
        if fitsDouble (decimalNumber (ws ++ fs)) (e - fs.length) then
          some (.float (String.ofList cs))
        else some .unreadable
      | _, _, _ => none

/-- Reads a scalar from its whole spelling. -/
def scalar? (cs : List Char) : Option Toml :=
  if cs == ['t', 'r', 'u', 'e'] then some (.boolean true)
  else if cs == ['f', 'a', 'l', 's', 'e'] then some (.boolean false)
  else integer? cs <|> float? cs <|> (dateTime? cs).map .dateTime

end HubBindings.Toml
