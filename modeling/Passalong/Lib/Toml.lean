import Mathlib

/-!
# A part of TOML 1.0

Documents of comments, tables and pairs of a bare key and a basic string, a decimal integer
or a boolean. What is `invalid` is no TOML at all; what this part leaves open (dotted and
quoted keys, arrays, dates, other line endings and so on) is `unmodelled`. So what a
document is here, or that it is none, is what a reader of all of TOML finds. Readers differ
on what they add to it (the escapes `\x` and `\e`, integers that an `i64` does not hold), and
that is left open, too.

A line stands for itself: nothing of this part goes on over the end of a line.
-/

namespace Lib.Toml

inductive Flaw where
  | invalid
  | unmodelled
  deriving DecidableEq, Repr

inductive Value where
  | string (text : List Char)
  | integer (n : Nat)
  | boolean (b : Bool)
  deriving DecidableEq, Repr

/-! ## Basic strings -/

/-- The control characters that may stand nowhere, which tabs may. -/
def isControl (c : Char) : Bool := (c.toNat < 0x20 && c ≠ '\t') || c.toNat = 0x7f

/-- The value of a hex digit. -/
def hexDigit (c : Char) : Option Nat :=
  if '0' ≤ c ∧ c ≤ '9' then some (c.toNat - '0'.toNat)
  else if 'a' ≤ c ∧ c ≤ 'f' then some (c.toNat - 'a'.toNat + 10)
  else if 'A' ≤ c ∧ c ≤ 'F' then some (c.toNat - 'A'.toNat + 10)
  else none

/-- The character with the number that hex digits spell; surrogates are none. -/
def scalar (digits : List Char) : Option Char := do
  let values ← digits.mapM hexDigit
  let n := values.foldl (fun n d => 16 * n + d) 0
  if h : n.isValidChar then return Char.ofNatAux n h else none

/-- The escapes of one character. -/
def shortEscape (c : Char) : Option Char :=
  if c = 'b' then some '\x08'
  else if c = 't' then some '\t'
  else if c = 'n' then some '\n'
  else if c = 'f' then some '\x0c'
  else if c = 'r' then some '\r'
  else if c = '"' then some '"'
  else if c = '\\' then some '\\'
  else none

/-- One more character of a string. -/
def more (c : Char) : Except Flaw (List Char × List Char) → Except Flaw (List Char × List Char)
  | .ok (text, rest) => .ok (c :: text, rest)
  | .error fault => .error fault

/-- An escape that some readers know. -/
def isExtension (c : Char) : Bool := c = 'x' || c = 'e'

/-- `basic-string` behind its opening quote: the text, and what stands behind the closing
one. All other escapes are reserved. -/
def basicString : List Char → Except Flaw (List Char × List Char)
  | [] => .error .invalid
  | c :: rest =>
    if c = '"' then .ok ([], rest)
    else if c ≠ '\\' then
      if isControl c then .error .invalid else more c (basicString rest)
    else
      match rest with
      | [] => .error .invalid
      | escaped :: rest =>
        match shortEscape escaped with
        | some char => more char (basicString rest)
        | none =>
          if escaped = 'u' then
            match rest with
            | a :: b :: c :: d :: rest =>
              match scalar [a, b, c, d] with
              | some char => more char (basicString rest)
              | none => .error .invalid
            | _ => .error .invalid
          else if escaped = 'U' then
            match rest with
            | a :: b :: c :: d :: e :: f :: g :: h :: rest =>
              match scalar [a, b, c, d, e, f, g, h] with
              | some char => more char (basicString rest)
              | none => .error .invalid
            | _ => .error .invalid
          else if isExtension escaped then .error .unmodelled
          else .error .invalid

@[simp] theorem basicString_close (rest : List Char) :
    basicString ('"' :: rest) = .ok ([], rest) := by
  rw [basicString.eq_def]
  exact if_pos rfl

theorem basicString_plain {c : Char} (rest : List Char) (hquote : c ≠ '"')
    (hbackslash : c ≠ '\\') (hc : isControl c = false) :
    basicString (c :: rest) = more c (basicString rest) := by
  rw [basicString.eq_def]
  dsimp only
  rw [if_neg hquote, if_pos hbackslash, hc]
  rfl

theorem basicString_escape {escaped char : Char} (rest : List Char)
    (h : shortEscape escaped = some char) :
    basicString ('\\' :: escaped :: rest) = more char (basicString rest) := by
  rw [basicString.eq_def]
  dsimp only
  rw [if_neg (by decide), if_neg (by decide), h]

theorem basicString_reserved {escaped : Char} (rest : List Char)
    (h : shortEscape escaped = none) (hu : escaped ≠ 'u') (hU : escaped ≠ 'U')
    (hext : isExtension escaped = false) :
    basicString ('\\' :: escaped :: rest) = .error .invalid := by
  rw [basicString.eq_def]
  dsimp only
  rw [if_neg (by decide), if_neg (by decide), h]
  dsimp only
  rw [if_neg hu, if_neg hU, hext]
  rfl

/-- A brace is no hex digit. -/
theorem basicString_brace (rest : List Char) :
    basicString ('\\' :: 'u' :: '\x7b' :: rest) = .error .invalid := by
  have hbrace : ∀ digits, scalar ('\x7b' :: digits) = none := fun _ => rfl
  have hu : shortEscape 'u' = none := by decide
  rw [basicString.eq_def]
  dsimp only
  rw [if_neg (by decide), if_neg (by decide), hu]
  dsimp only
  rw [if_pos rfl]
  split
  · next h =>
    cases h
    rw [hbrace]
  · rfl

/-! ## Lines -/

inductive Line where
  | blank
  | header (name : String)
  | pair (key : String) (value : Value)
  deriving DecidableEq, Repr

def isBlank (c : Char) : Bool := c = ' ' || c = '\t'

def isBare (c : Char) : Bool := c.isAlphanum || c = '_' || c = '-'

/-- What is left of a line behind a name or a value: nothing, or a comment. -/
def endOfLine (s : List Char) : Except Flaw Unit :=
  match s.dropWhile isBlank with
  | [] => .ok ()
  | '#' :: comment => if comment.any isControl then .error .invalid else .ok ()
  | _ => .error .invalid

/-- The characters of numbers, dates and booleans. -/
def isWord (c : Char) : Bool := c.isAlphanum || c ∈ ['_', '.', '+', '-', ':']

def plainValue (word : List Char) : Except Flaw Value :=
  if word = ['t', 'r', 'u', 'e'] then .ok (.boolean true)
  else if word = ['f', 'a', 'l', 's', 'e'] then .ok (.boolean false)
  else if word ≠ [] ∧ word.all Char.isDigit ∧ (word.head? ≠ some '0' ∨ word.length = 1) then
    let n := word.foldl (fun n c => 10 * n + (c.toNat - '0'.toNat)) 0
    if n < 2 ^ 63 then .ok (.integer n) else .error .unmodelled
  else .error .unmodelled

def value : List Char → Except Flaw (Value × List Char)
  | '"' :: '"' :: '"' :: _ => .error .unmodelled
  | '"' :: rest =>
    match basicString rest with
    | .ok (text, rest) => .ok (.string text, rest)
    | .error fault => .error fault
  | s => (plainValue (s.takeWhile isWord)).map fun value => (value, s.dropWhile isWord)

/-- `key = value` -/
def pair (s : List Char) : Except Flaw Line := do
  let key := s.takeWhile isBare
  match key, (s.dropWhile isBare).dropWhile isBlank with
  | _ :: _, '=' :: after =>
    let (value, rest) ← value (after.dropWhile isBlank)
    endOfLine rest
    return .pair (String.ofList key) value
  | _, _ => .error .unmodelled

/-- `[table]`, behind its bracket. -/
def header (s : List Char) : Except Flaw Line := do
  let s := s.dropWhile isBlank
  let name := s.takeWhile isBare
  match name, (s.dropWhile isBare).dropWhile isBlank with
  | _ :: _, ']' :: after =>
    endOfLine after
    return .header (String.ofList name)
  | _, _ => .error .unmodelled

def line (s : List Char) : Except Flaw Line :=
  if '\r' ∈ s then .error .unmodelled
  else
    match s.dropWhile isBlank with
    | [] => .ok .blank
    | '#' :: comment => if comment.any isControl then .error .invalid else .ok .blank
    | '[' :: rest => header rest
    | s => pair s

/-! ## Documents -/

/-- The pairs that stand before any table, and the tables, the newest first. -/
structure Document where
  root : List (String × Value) := []
  tables : List (String × List (String × Value)) := []
  deriving DecidableEq, Repr

namespace Document

/-- No table and no key is defined twice. -/
def add (doc : Document) : Line → Except Flaw Document
  | .blank => .ok doc
  | .header name =>
    if (doc.root.lookup name).isSome ∨ (doc.tables.lookup name).isSome then .error .invalid
    else .ok { doc with tables := (name, []) :: doc.tables }
  | .pair key value =>
    match doc.tables with
    | [] =>
      if (doc.root.lookup key).isSome then .error .invalid
      else .ok { doc with root := (key, value) :: doc.root }
    | (name, pairs) :: tables =>
      if (pairs.lookup key).isSome then .error .invalid
      else .ok { doc with tables := (name, (key, value) :: pairs) :: tables }

/-- The document that a text is. -/
def parse (text : List Char) : Except Flaw Document := do
  let lines ← (text.splitOn '\n').mapM line
  lines.foldlM add {}

end Document

example : Document.parse "[a]\nb = \"c\\n\" # d\n".toList =
    .ok { tables := [("a", [("b", .string ['c', '\n'])])] } := by decide +kernel

end Lib.Toml
