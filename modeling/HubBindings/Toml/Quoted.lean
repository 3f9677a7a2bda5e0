import HubBindings.Text.Decimal

/-!
The four kinds of quoted text of TOML: with or without escapes, on one line or on several.
-/

namespace HubBindings.Toml

open Text

/-- Characters that may stand in a comment or in a text: all but control characters, the tab
excepted. -/
def isPlain (c : Char) : Bool := c = '\t' || (0x20 ≤ c.toNat && c.toNat ≠ 0x7F)

/-- The character that a one-letter escape denotes. -/
def escaped? : Char → Option Char
  | 'b' => some '\x08'
  | 't' => some '\t'
  | 'n' => some '\n'
  | 'f' => some '\x0c'
  | 'r' => some '\r'
  | '"' => some '"'
  | '\\' => some '\\'
  | _ => none

/-- The character that hexadecimal digits denote. Surrogates denote none. -/
def scalarValue? (digits : List Char) : Option Char :=
  match numberIn? 16 digits with
  | some n => if n < 0xD800 ∨ (0xE000 ≤ n ∧ n < 0x110000) then some (Char.ofNat n) else none
  | none => none

/-- Reads a text with escapes on one line, after its opening quote. `found` comes last first. -/
def basic? (found : List Char) : List Char → Option (String × List Char)
  | [] => none
  | '"' :: rest => some (String.ofList found.reverse, rest)
  | '\\' :: 'u' :: a :: b :: c :: d :: rest =>
    match scalarValue? [a, b, c, d] with
    | some x => basic? (x :: found) rest
    | none => none
  | '\\' :: 'U' :: a :: b :: c :: d :: e :: f :: g :: h :: rest =>
    match scalarValue? [a, b, c, d, e, f, g, h] with
    | some x => basic? (x :: found) rest
    | none => none
  | '\\' :: e :: rest =>
    match escaped? e with
    | some x => basic? (x :: found) rest
    | none => none
  | c :: rest => if isPlain c ∧ c ≠ '\\' then basic? (c :: found) rest else none

/-- Reads a text without escapes on one line, after its opening quote. -/
def literal? (found : List Char) : List Char → Option (String × List Char)
  | [] => none
  | '\'' :: rest => some (String.ofList found.reverse, rest)
  | c :: rest => if isPlain c then literal? (c :: found) rest else none

/-- Drops a line break that directly follows the opening quotes. -/
def dropFirstBreak : List Char → List Char
  | '\n' :: rest => rest
  | '\r' :: '\n' :: rest => rest
  | cs => cs

/-- Drops blanks and line breaks. -/
def dropBreaks : List Char → List Char
  | ' ' :: rest => dropBreaks rest
  | '\t' :: rest => dropBreaks rest
  | '\n' :: rest => dropBreaks rest
  | '\r' :: '\n' :: rest => dropBreaks rest
  | cs => cs

/-- Drops blanks, and then a line break with all blanks and line breaks after it. There has to be
such a break. -/
def dropLineEnd? : List Char → Option (List Char)
  | ' ' :: rest => dropLineEnd? rest
  | '\t' :: rest => dropLineEnd? rest
  | '\n' :: rest => some (dropBreaks rest)
  | '\r' :: '\n' :: rest => some (dropBreaks rest)
  | _ => none

/-- Reads closing quotes of a text on several lines: three, and up to two more that belong to the
text. Returns those that belong to the text. -/
def closing? (quote : Char) (cs : List Char) : Option (List Char × List Char) :=
  let n := (cs.take 5).takeWhile (· == quote) |>.length
  if 3 ≤ n then some (List.replicate (n - 3) quote, cs.drop n) else none

/-- Reads a text with escapes on several lines, after its opening quotes, in at most `room`
steps. -/
def multilineBasic? : (room : Nat) → (found : List Char) → List Char → Option (String × List Char)
  | 0, _, _ => none
  | room + 1, found, cs =>
    match closing? '"' cs with
    | some (extra, rest) => some (String.ofList (found.reverse ++ extra), rest)
    | none =>
      match cs with
      | [] => none
      | '\\' :: 'u' :: a :: b :: c :: d :: rest =>
        match scalarValue? [a, b, c, d] with
        | some x => multilineBasic? room (x :: found) rest
        | none => none
      | '\\' :: 'U' :: a :: b :: c :: d :: e :: f :: g :: h :: rest =>
        match scalarValue? [a, b, c, d, e, f, g, h] with
        | some x => multilineBasic? room (x :: found) rest
        | none => none
      | '\\' :: e :: rest =>
        match escaped? e with
        | some x => multilineBasic? room (x :: found) rest
        | none =>
          match dropLineEnd? (e :: rest) with
          | some after => multilineBasic? room found after
          | none => none
      | '\r' :: '\n' :: rest => multilineBasic? room ('\n' :: '\r' :: found) rest
      | c :: rest =>
        if (isPlain c ∨ c = '\n') ∧ c ≠ '\\' then multilineBasic? room (c :: found) rest else none

/-- Reads a text without escapes on several lines, after its opening quotes, in at most `room`
steps. -/
def multilineLiteral? : (room : Nat) → (found : List Char) → List Char → Option (String × List Char)
  | 0, _, _ => none
  | room + 1, found, cs =>
    match closing? '\'' cs with
    | some (extra, rest) => some (String.ofList (found.reverse ++ extra), rest)
    | none =>
      match cs with
      | [] => none
      | '\r' :: '\n' :: rest => multilineLiteral? room ('\n' :: '\r' :: found) rest
      | c :: rest =>
        if isPlain c ∨ c = '\n' then multilineLiteral? room (c :: found) rest else none

/-- Reads a quoted text of any kind; `none` also if there is no quote. -/
def quoted? : List Char → Option (String × List Char)
  | '"' :: '"' :: '"' :: rest => multilineBasic? (rest.length + 1) [] (dropFirstBreak rest)
  | '\'' :: '\'' :: '\'' :: rest => multilineLiteral? (rest.length + 1) [] (dropFirstBreak rest)
  | '"' :: rest => basic? [] rest
  | '\'' :: rest => literal? [] rest
  | _ => none

end HubBindings.Toml
