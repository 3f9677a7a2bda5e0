import HubBindings.Json.Value
import HubBindings.Text.Decimal

/-!
The lexical layer of JSON: characters to tokens. String literals are decoded here, and a literal
with half of a surrogate pair becomes a text without a value.
-/

namespace HubBindings.Json

open Text

/-- A lexical unit. -/
inductive Token where
  | openArray
  | closeArray
  | openObject
  | closeObject
  | comma
  | colon
  /-- A string literal; `none` if it denotes no text. -/
  | text (s : Option String)
  /-- A number or one of the three words. -/
  | scalar (j : Json)

/-! ## String literals -/

/-- A part of a string literal: a character, or the number of a `\u` escape. -/
inductive Piece where
  | char (c : Char)
  | unit (n : Nat)

/-- The character that a one-letter escape denotes. -/
def escaped? : Char → Option Char
  | '"' => some '"'
  | '\\' => some '\\'
  | '/' => some '/'
  | 'b' => some '\x08'
  | 'f' => some '\x0c'
  | 'n' => some '\n'
  | 'r' => some '\r'
  | 't' => some '\t'
  | _ => none

/-- Reads a string literal after its opening quote and returns its parts, last first, and what
follows the closing quote. Control characters have to be escaped. -/
def scanPieces (pieces : List Piece) : List Char → Option (List Piece × List Char)
  | [] => none
  | '"' :: rest => some (pieces, rest)
  | '\\' :: 'u' :: a :: b :: c :: d :: rest =>
    match numberIn? 16 [a, b, c, d] with
    | some n => scanPieces (.unit n :: pieces) rest
    | none => none
  | '\\' :: e :: rest =>
    match escaped? e with
    | some c => scanPieces (.char c :: pieces) rest
    | none => none
  | c :: rest => if c.toNat < 0x20 ∨ c = '\\' then none else scanPieces (.char c :: pieces) rest

/-- Whether a number is the first half of a surrogate pair. -/
def isHighSurrogate (n : Nat) : Bool := 0xD800 ≤ n && n < 0xDC00

/-- Whether a number is the second half of a surrogate pair. -/
def isLowSurrogate (n : Nat) : Bool := 0xDC00 ≤ n && n < 0xE000

/-- The characters of a list of parts, in front of `tail`; the parts come last first. -/
def joinPieces (tail : List Char) : List Piece → Option (List Char)
  | [] => some tail
  | .char c :: rest => joinPieces (c :: tail) rest
  | .unit n :: rest =>
    if isLowSurrogate n then
      match rest with
      | .unit m :: rest' =>
        if isHighSurrogate m then
          joinPieces (Char.ofNat (0x10000 + (m - 0xD800) * 0x400 + (n - 0xDC00)) :: tail) rest'
        else none
      | _ => none
    else if isHighSurrogate n then none
    else joinPieces (Char.ofNat n :: tail) rest

/-! ## Numbers -/

/-- Whether a number has a value. Its leading digits are taken as far as they fit a word: digits of
the whole part that are left over only scale it, those of the fraction are dropped. -/
def isInRange (whole fraction : List Char) (exponent : Int) : Bool :=
  let (leading, scale) := appendDigits 0 whole
  let (significand, dropped) := appendDigits leading fraction
  productFitsDouble significand (exponent + scale - (fraction.length - dropped : Nat))

/-- Reads a number literal: no superfluous zeros in front, a digit on both sides of the point, a
digit in the exponent. -/
def ofLiteral? (literal : List Char) : Option Json :=
  let (negative, body) := match literal with
    | '-' :: rest => (true, rest)
    | _ => (false, literal)
  let (whole, afterWhole) := spanDigits body
  if whole.isEmpty || (whole.head? == some '0' && whole.length > 1) then none
  else
    let fraction? := match afterWhole with
      | '.' :: rest =>
        let (digits, afterDigits) := spanDigits rest
        if digits.isEmpty then none else some (digits, afterDigits)
      | _ => some ([], afterWhole)
    match fraction? with
    | none => none
    | some (fraction, afterFraction) =>
      let exponent? : Option (Option Int) := match afterFraction with
        | [] => some none
        | e :: rest =>
          if e = 'e' ∨ e = 'E' then
            let (sign, digits) : Int × List Char := match rest with
              | '-' :: ds => (-1, ds)
              | '+' :: ds => (1, ds)
              | ds => (1, ds)
            if digits.isEmpty || !digits.all Char.isDigit then none
            else some (some (sign * decimalNumber digits))
          else none
      match exponent? with
      | none => none
      | some exponent =>
        if !isInRange whole fraction (exponent.getD 0) then some .unreadable
        else if negative || !fraction.isEmpty || exponent.isSome then
          some (.number (String.ofList literal))
        else some (.natural (decimalNumber whole))

/-! ## Tokens -/

/-- The token that a single character is. -/
def punctuation? : Char → Option Token
  | '[' => some .openArray
  | ']' => some .closeArray
  | '{' => some .openObject
  | '}' => some .closeObject
  | ',' => some .comma
  | ':' => some .colon
  | _ => none

/-- White space between tokens. -/
def isBlankChar (c : Char) : Bool := c = ' ' || c = '\t' || c = '\n' || c = '\r'

/-- Characters that number literals are made of. -/
def isNumberChar (c : Char) : Bool :=
  c.isDigit || c = '-' || c = '+' || c = '.' || c = 'e' || c = 'E'

/-- The value that a word denotes. -/
def ofWord? (word : List Char) : Option Json :=
  match String.ofList word with
  | "null" => some .null
  | "true" => some (.bool true)
  | "false" => some (.bool false)
  | _ => none

/-- Reads one token that is not punctuation, and what follows it. -/
def scanToken? : List Char → Option (Token × List Char)
  | '"' :: rest => (scanPieces [] rest).map fun (pieces, after) =>
      (.text ((joinPieces [] pieces).map String.ofList), after)
  | cs =>
    let (letters, afterLetters) := cs.span Char.isAlpha
    if letters.isEmpty then
      let (literal, after) := cs.span isNumberChar
      (ofLiteral? literal).map fun j => (.scalar j, after)
    else (ofWord? letters).map fun j => (.scalar j, afterLetters)

/-- The tokens of a character sequence, appended to `found`, in at most `room` steps. Each step
consumes a character, so the length of the sequence is room enough. -/
def scanTokens : (room : Nat) → (found : Array Token) → List Char → Option (Array Token)
  | _, found, [] => some found
  | 0, _, _ :: _ => none
  | room + 1, found, c :: rest =>
    if isBlankChar c then scanTokens room found rest
    else match punctuation? c with
      | some t => scanTokens room (found.push t) rest
      | none =>
        match scanToken? (c :: rest) with
        | some (t, after) => scanTokens room (found.push t) after
        | none => none

/-- The tokens of a text. -/
def tokens? (s : String) : Option (Array Token) := scanTokens s.length #[] s.toList

end HubBindings.Json
