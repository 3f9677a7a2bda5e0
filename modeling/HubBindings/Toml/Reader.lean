import HubBindings.Toml.Quoted
import HubBindings.Toml.Scalar
import HubBindings.Toml.Tree

/-!
Reading TOML documents. Functions that call each other take the number of steps they may still
use; each step consumes a character, so the length of the text is enough.
-/

namespace HubBindings.Toml

/-- How many arrays and inline tables may be nested in each other. -/
def nestingLimit : Nat := 80

/-- How many parts a key may have. -/
def keyLimit : Nat := 80

/-! ## Blanks, comments and line ends -/

/-- Spaces and tabs. -/
def isBlankChar (c : Char) : Bool := c == ' ' || c == '\t'

/-- Drops spaces and tabs. -/
def dropBlanks (cs : List Char) : List Char := cs.dropWhile isBlankChar

/-- Drops blanks, line breaks and comments. -/
def dropFiller? (inComment : Bool) : List Char → Option (List Char)
  | [] => some []
  | '\n' :: rest => dropFiller? false rest
  | '\r' :: '\n' :: rest => dropFiller? false rest
  | c :: rest =>
    if inComment then if isPlain c then dropFiller? true rest else none
    else if c = ' ' ∨ c = '\t' then dropFiller? false rest
    else if c = '#' then dropFiller? true rest
    else some (c :: rest)

/-- Drops what may stand between a statement and the end of its line. -/
def dropLineRest? (cs : List Char) : Option (List Char) :=
  match dropBlanks cs with
  | [] => some []
  | '\n' :: rest => some rest
  | '\r' :: '\n' :: rest => some rest
  | '#' :: rest =>
    match rest.dropWhile isPlain with
    | [] => some []
    | '\n' :: after => some after
    | '\r' :: '\n' :: after => some after
    | _ => none
  | _ => none

/-! ## Keys -/

/-- Characters of a key without quotes. -/
def isBareKeyChar (c : Char) : Bool := c.isAlphanum || c == '_' || c == '-'

/-- Reads one part of a key. -/
def keyPart? (cs : List Char) : Option (String × List Char) :=
  match cs with
  | '"' :: rest => basic? [] rest
  | '\'' :: rest => literal? [] rest
  | _ =>
    match cs.span isBareKeyChar with
    | ([], _) => none
    | (part, rest) => some (String.ofList part, rest)

/-- Reads the parts of a key, at most `parts` more, after those in `path`: the parts before the
last, the last part, and what follows, without blanks. -/
def keyParts? : (parts : Nat) → (path : List String) → List Char →
    Option (List String × String × List Char)
  | 0, _, _ => none
  | parts + 1, path, cs =>
    match keyPart? cs with
    | none => none
    | some (part, rest) =>
      match dropBlanks rest with
      | '.' :: after => keyParts? parts (path ++ [part]) (dropBlanks after)
      | after => some (path, part, after)

/-- Reads a key with dots between its parts. -/
def dottedKey? (cs : List Char) : Option (List String × String × List Char) :=
  keyParts? keyLimit [] cs

/-- Reads a key and the equals sign after it. -/
def keyEquals? (cs : List Char) : Option (List String × String × List Char) :=
  match dottedKey? cs with
  | some (path, key, '=' :: rest) => some (path, key, dropBlanks rest)
  | _ => none

/-! ## Values -/

/-- Characters that end a scalar without quotes. -/
def endsScalar (c : Char) : Bool :=
  c == ',' || c == '=' || c == '#' || c == '[' || c == ']' || c == '{' || c == '}' ||
    c == '\r' || c == '\n'

/-- Splits off a scalar without quotes: words with blanks between them. `found` holds its characters
so far, last first. A quote opens a string after a blank; inside a word it opens nothing. -/
def spanWords (found : List Char) : List Char → List Char × List Char
  | [] => (found, [])
  | c :: rest =>
    let opensString := (c == '"' || c == '\'') && found.head?.any isBlankChar
    if endsScalar c || opensString then (found, c :: rest) else spanWords (c :: found) rest

/-- Reads a scalar without quotes. The blanks after it do not belong to it. -/
def bareScalar? (cs : List Char) : Option (Toml × List Char) :=
  let (found, rest) := spanWords [] cs
  (scalar? (dropBlanks found).reverse).map fun v => (v, rest)

mutual

/-- Reads a value; `depth` more arrays and inline tables may be nested in each other. -/
def value? : (room : Nat) → (depth : Nat) → List Char → Option (Toml × List Char)
  | 0, _, _ => none
  | room + 1, depth, cs =>
    match cs with
    | '[' :: rest =>
      match depth, dropFiller? false rest with
      | depth' + 1, some after => items? room depth' [] after
      | _, _ => none
    | '{' :: rest =>
      match depth, dropBlanks rest with
      | 0, _ => none
      | _ + 1, '}' :: after => some (.table [], after)
      | depth' + 1, after => pairs? room depth' [] after
    | c :: rest =>
      if c = '"' ∨ c = '\'' then (quoted? (c :: rest)).map fun (s, after) => (.string s, after)
      else bareScalar? (c :: rest)
    | [] => none

/-- Reads the items of an array up to its end; `found` comes last first. -/
def items? : (room : Nat) → (depth : Nat) → (found : List Toml) → List Char →
    Option (Toml × List Char)
  | 0, _, _, _ => none
  | _ + 1, _, found, ']' :: rest => some (.array found.reverse, rest)
  | room + 1, depth, found, cs =>
    match value? room depth cs with
    | none => none
    | some (v, rest) =>
      match dropFiller? false rest with
      | some (',' :: more) =>
        match dropFiller? false more with
        | some after => items? room depth (v :: found) after
        | none => none
      | some (']' :: after) => some (.array (v :: found).reverse, after)
      | _ => none

/-- Reads the pairs of an inline table up to its end. -/
def pairs? : (room : Nat) → (depth : Nat) → (entries : Entries) → List Char →
    Option (Toml × List Char)
  | 0, _, _, _ => none
  | room + 1, depth, entries, cs =>
    match keyEquals? cs with
    | none => none
    | some (path, key, rest) =>
      match value? room depth rest with
      | none => none
      | some (v, after) =>
        match entries.put? path key v, dropBlanks after with
        | some entries', ',' :: more => pairs? room depth entries' (dropBlanks more)
        | some entries', '}' :: more => some (.table (closeEntries entries'), more)
        | _, _ => none

end

/-! ## Statements -/

/-- A statement of a document. -/
inductive Statement where
  /-- An assignment `path.key = value`. -/
  | assign (path : List String) (key : String) (v : Toml)
  /-- A header `[path.key]`. -/
  | table (path : List String) (key : String)
  /-- A header `[[path.key]]`. -/
  | item (path : List String) (key : String)

/-- Reads one statement and the rest of its line. -/
def statement? (room : Nat) (cs : List Char) : Option (Statement × List Char) :=
  match cs with
  | '[' :: '[' :: rest =>
    match dottedKey? (dropBlanks rest) with
    | some (path, key, ']' :: ']' :: after) =>
      (dropLineRest? after).map fun rest => (.item path key, rest)
    | _ => none
  | '[' :: rest =>
    match dottedKey? (dropBlanks rest) with
    | some (path, key, ']' :: after) =>
      (dropLineRest? after).map fun rest => (.table path key, rest)
    | _ => none
  | _ =>
    match keyEquals? cs with
    | none => none
    | some (path, key, rest) =>
      match value? room nestingLimit rest with
      | none => none
      | some (v, after) => (dropLineRest? after).map fun rest => (.assign path key v, rest)

/-- Reads the statements of a document; `found` comes last first. -/
def statements? : (room : Nat) → (found : List Statement) → List Char → Option (List Statement)
  | room, found, cs =>
    match dropFiller? false cs with
    | none => none
    | some [] => some found.reverse
    | some (c :: rest) =>
      match room with
      | 0 => none
      | room' + 1 =>
        match statement? (rest.length + 2) (c :: rest) with
        | none => none
        | some (s, after) => statements? room' (s :: found) after

/-! ## Documents -/

/-- A document under construction and the path of its current table. -/
structure Document where
  entries : Entries := []
  current : List String := []

/-- Takes one statement into a document. -/
def Document.take? (d : Document) : Statement → Option Document
  | .assign path key v =>
    (d.entries.modifyAt? (fun inner => inner.put? path key v) d.current).map fun entries =>
      { d with entries }
  | .table path key =>
    (d.entries.modifyAt? (fun inner => inner.openTable? key) path).map fun entries =>
      { entries, current := path ++ [key] }
  | .item path key =>
    (d.entries.modifyAt? (fun inner => inner.openItem? key) path).map fun entries =>
      { entries, current := path ++ [key] }

/-- Reads a document and returns the content of its root table. A byte order mark may stand in
front. -/
def parse? (s : String) : Option (List (String × Toml)) :=
  let cs := match s.toList with
    | '\uFEFF' :: rest => rest
    | cs => cs
  match statements? (cs.length + 1) [] cs with
  | none => none
  | some statements =>
    (statements.foldlM Document.take? {}).map fun d => closeEntries d.entries

end HubBindings.Toml
