import Mathlib.Data.List.TakeWhile

/-!
# How a POSIX shell splits a script into tokens

Single quotes, double quotes, backslashes, comments, operators and parameter expansions, one
character at a time. What is left out (command substitution, arithmetic, here-documents,
patterns in which something is quoted) is no token at all: a script with one of them gives
`none`, so that a script which gives tokens has none of them.

A word is made of pieces: a character that was not quoted, one that was, and a parameter
that will be expanded. `Word.literal` is what a word stands for whatever the shell's
parameters are and whatever files there are, and `none` if that decides.

1. `run_frame`: tokens once given are not looked at again, so a script is split part by
   part (`lex_append_word`).
2. `run_quote`: text that is quoted the usual way is its own characters, all of them quoted,
   in the word that is being read.
-/

namespace Lib.Shell

inductive Piece where
  | plain (c : Char)
  | quoted (c : Char)
  /-- What stands between `$` or braces, and whether in double quotes. -/
  | expansion (text : List Char) (inQuotes : Bool)
  deriving DecidableEq, Repr

abbrev Word := List Piece

inductive Token where
  | word (w : Word)
  | operator (text : List Char)
  deriving DecidableEq, Repr

/-! ## The lexer -/

inductive Mode where
  | bare
  | single
  | double
  | comment
  /-- Behind a backslash. -/
  | escape (inQuotes : Bool)
  /-- Behind a dollar sign. -/
  | dollar (inQuotes : Bool)
  | name (read : List Char) (inQuotes : Bool)
  | brace (read : List Char) (inQuotes : Bool)
  | operator (read : List Char)
  /-- Something that is left out. -/
  | unmodelled
  deriving DecidableEq, Repr

structure Lexer where
  mode : Mode := .bare
  /-- The word that is being read. -/
  word : Option Word := none
  out : List Token := []
  deriving DecidableEq, Repr

namespace Lexer

def add (l : Lexer) (piece : Piece) : Lexer :=
  { l with word := some (l.word.getD [] ++ [piece]) }

/-- A quote begins a word, even if nothing is in it. -/
def begin (l : Lexer) : Lexer := { l with word := some (l.word.getD []) }

/-- The word ends here. -/
def flush (l : Lexer) : Lexer :=
  match l.word with
  | some w => { l with word := none, out := l.out ++ [.word w] }
  | none => l

def put (l : Lexer) (text : List Char) : Lexer := { l with out := l.out ++ [.operator text] }

def enter (l : Lexer) (mode : Mode) : Lexer := { l with mode }

end Lexer

def isOperator (text : List Char) : Bool :=
  text ∈ [['&'], ['|'], [';'], ['<'], ['>'], ['('], [')'], ['&', '&'], ['|', '|'], [';', ';'],
    ['<', '<'], ['>', '>'], ['<', '&'], ['>', '&'], ['<', '>'], ['>', '|']]

def isNameStart (c : Char) : Bool := c.isAlpha || c = '_'

def isNamePart (c : Char) : Bool := c.isAlphanum || c = '_'

/-- The parameters that are one character. -/
def isSpecial (c : Char) : Bool := c.isDigit || c ∈ ['@', '*', '#', '?', '-', '$', '!']

/-- A character that is neither quoted nor part of what began before it. -/
def stepBare (l : Lexer) (c : Char) : Lexer :=
  if c = '\'' then l.begin.enter .single
  else if c = '"' then l.begin.enter .double
  else if c = '\\' then l.enter (.escape false)
  else if c = '$' then l.enter (.dollar false)
  else if c = '\x60' then l.enter .unmodelled
  else if c = ' ' ∨ c = '\t' then l.flush.enter .bare
  else if c = '\n' then (l.flush.put ['\n']).enter .bare
  else if isOperator [c] then l.flush.enter (.operator [c])
  else if c = '#' ∧ l.word = none then l.enter .comment
  else (l.add (.plain c)).enter .bare

def stepDouble (l : Lexer) (c : Char) : Lexer :=
  if c = '"' then l.enter .bare
  else if c = '\\' then l.enter (.escape true)
  else if c = '$' then l.enter (.dollar true)
  else if c = '\x60' then l.enter .unmodelled
  else (l.add (.quoted c)).enter .double

/-- Where a character stands that is in double quotes, or is not. -/
def outer (inQuotes : Bool) : Mode := if inQuotes then .double else .bare

def step (l : Lexer) (c : Char) : Lexer :=
  match l.mode with
  | .bare => stepBare l c
  | .single => if c = '\'' then l.enter .bare else l.add (.quoted c)
  | .double => stepDouble l c
  | .comment => if c = '\n' then (l.put ['\n']).enter .bare else l
  | .escape false => if c = '\n' then l.enter .bare else (l.add (.quoted c)).enter .bare
  | .escape true =>
    if c = '\n' then l.enter .double
    else if c ∈ ['$', '\x60', '"', '\\'] then (l.add (.quoted c)).enter .double
    else ((l.add (.quoted '\\')).add (.quoted c)).enter .double
  | .dollar inQuotes =>
    if c = '\x7b' then l.enter (.brace [] inQuotes)
    else if isNameStart c then l.enter (.name [c] inQuotes)
    else if isSpecial c then (l.add (.expansion [c] inQuotes)).enter (outer inQuotes)
    else l.enter .unmodelled
  | .name read inQuotes =>
    if isNamePart c then l.enter (.name (read ++ [c]) inQuotes)
    else
      let l := l.add (.expansion read inQuotes)
      if inQuotes then stepDouble l c else stepBare l c
  | .brace read inQuotes =>
    if c = '\x7d' then (l.add (.expansion read inQuotes)).enter (outer inQuotes)
    else if c ∈ ['\'', '"', '\\', '$', '\x60'] then l.enter .unmodelled
    else l.enter (.brace (read ++ [c]) inQuotes)
  | .operator read =>
    if isOperator (read ++ [c]) then l.enter (.operator (read ++ [c]))
    else if read = ['<', '<'] then l.enter .unmodelled
    else stepBare (l.put read) c
  | .unmodelled => l

def run (l : Lexer) (text : List Char) : Lexer := text.foldl step l

/-- The tokens, if nothing is left open. -/
def Lexer.finish (l : Lexer) : Option (List Token) :=
  match l.mode with
  | .bare | .comment => some l.flush.out
  | .name read false => some (l.add (.expansion read false)).flush.out
  | .operator read => if read = ['<', '<'] then none else some (l.put read).out
  | _ => none

/-- The tokens of a script. -/
def lex (text : List Char) : Option (List Token) := (run {} text).finish

/-! ## What a word stands for -/

/-- A character that stands for more than itself in a word that is not quoted. -/
def isPattern (c : Char) : Bool := c ∈ ['*', '?', '[', '~']

def Piece.literal : Piece → Option Char
  | .plain c => if isPattern c then none else some c
  | .quoted c => some c
  | .expansion _ _ => none

/-- The text of a word in which nothing is expanded. -/
def Word.literal (w : Word) : Option (List Char) := w.mapM Piece.literal

def Token.literal : Token → Option (List Char)
  | .word w => Word.literal w
  | .operator _ => none

/-- The words of a command that is nothing else. -/
def words (text : List Char) : Option (List (List Char)) :=
  (lex text).bind fun tokens => tokens.mapM Token.literal

def Piece.isNamePart : Piece → Bool
  | .plain c => Shell.isNamePart c
  | _ => false

/-- Letters, digits and underscores, no digit first. -/
def isName : List Piece → Bool
  | .plain c :: pieces => isNameStart c && pieces.all Piece.isNamePart
  | _ => false

/-- The value that a word assigns, and to what. -/
def Token.assignment : Token → Option (List Piece × Word)
  | .word w =>
    let name := w.takeWhile fun piece => piece ≠ .plain '='
    match w.dropWhile fun piece => piece ≠ .plain '=' with
    | _ :: value => if isName name then some (name, value) else none
    | [] => none
  | .operator _ => none

/-- Everything that a script assigns to a name. -/
def assigned (name : List Char) (tokens : List Token) : List (Option (List Char)) :=
  tokens.filterMap fun token =>
    match token.assignment with
    | some (target, value) => if target = name.map .plain then some (Word.literal value) else none
    | none => none

/-- What the shell acts on in a word, which is not what is quoted. -/
def Piece.isActive : Piece → Bool
  | .quoted _ => false
  | _ => true

/-- A token without the characters that are quoted. -/
def Token.skeleton : Token → Token
  | .word w => .word (w.filter Piece.isActive)
  | .operator text => .operator text

example : words "echo \"a\"'b c' # d".toList = some ["echo".toList, "ab c".toList] := by
  decide +kernel

/-! ## Part by part -/

/-- More tokens before those that were given. -/
def Lexer.after (l : Lexer) (front : List Token) : Lexer := { l with out := front ++ l.out }

@[simp] theorem run_nil (l : Lexer) : run l [] = l := rfl

theorem run_append (l : Lexer) (front back : List Char) :
    run l (front ++ back) = run (run l front) back :=
  List.foldl_append

section Frame

variable (l : Lexer) (front : List Token)

@[simp] theorem add_after (piece : Piece) : (l.after front).add piece = (l.add piece).after front :=
  rfl

@[simp] theorem begin_after : (l.after front).begin = l.begin.after front := rfl

@[simp] theorem enter_after (mode : Mode) :
    (l.after front).enter mode = (l.enter mode).after front := rfl

@[simp] theorem put_after (text : List Char) :
    (l.after front).put text = (l.put text).after front := by
  simp [Lexer.put, Lexer.after]

@[simp] theorem flush_after : (l.after front).flush = l.flush.after front := by
  unfold Lexer.flush
  cases hw : l.word with
  | none => simp [Lexer.after, hw]
  | some w => simp [Lexer.after, hw]

@[simp] theorem word_after : (l.after front).word = l.word := rfl

@[simp] theorem mode_after : (l.after front).mode = l.mode := rfl

theorem stepBare_after (c : Char) : stepBare (l.after front) c = (stepBare l c).after front := by
  unfold stepBare
  simp only [begin_after, enter_after, flush_after, put_after, add_after, word_after]
  split_ifs
  all_goals first | rfl | exact if_pos ‹_› | exact if_neg ‹_›

theorem stepDouble_after (c : Char) :
    stepDouble (l.after front) c = (stepDouble l c).after front := by
  unfold stepDouble
  simp only [enter_after, add_after]
  split_ifs <;> rfl

/-- Tokens once given are not looked at again. -/
theorem step_after (c : Char) : step (l.after front) c = (step l c).after front := by
  unfold step
  rw [mode_after]
  cases l.mode with
  | bare => exact stepBare_after l front c
  | double => exact stepDouble_after l front c
  | single => simp only [enter_after, add_after]; split_ifs <;> rfl
  | comment => simp only [enter_after, put_after]; split_ifs <;> rfl
  | escape inQuotes =>
    cases inQuotes with
    | false => simp only [enter_after, add_after]; split_ifs <;> rfl
    | true => simp only [enter_after, add_after]; split_ifs <;> rfl
  | dollar inQuotes => simp only [enter_after, add_after]; split_ifs <;> rfl
  | name read inQuotes =>
    simp only [enter_after, add_after, stepBare_after, stepDouble_after]
    split_ifs <;> rfl
  | brace read inQuotes => simp only [enter_after, add_after]; split_ifs <;> rfl
  | operator read =>
    simp only [enter_after, put_after, stepBare_after]
    split_ifs <;> rfl
  | unmodelled => rfl

/-- **A script is split part by part.** -/
theorem run_after (text : List Char) : run (l.after front) text = (run l text).after front := by
  induction text generalizing l with
  | nil => rfl
  | cons c text ih =>
    show run (step (l.after front) c) text = (run (step l c) text).after front
    rw [step_after, ih]

theorem finish_after : (l.after front).finish = l.finish.map (front ++ ·) := by
  unfold Lexer.finish
  rw [mode_after]
  cases l.mode with
  | bare =>
    dsimp only
    rw [flush_after]
    rfl
  | comment =>
    dsimp only
    rw [flush_after]
    rfl
  | name read inQuotes =>
    cases inQuotes with
    | false =>
      dsimp only
      rw [add_after, flush_after]
      rfl
    | true => rfl
  | operator read =>
    dsimp only
    rw [put_after]
    split_ifs <;> rfl
  | _ => rfl

end Frame

/-! ## Text that is quoted, and text that need not be -/

/-- Text in single quotes; a single quote in it ends them, is quoted on its own, and begins
them again. -/
def quote (text : List Char) : List Char :=
  '\'' :: (text.flatMap fun c => if c = '\'' then ['\'', '\\', '\'', '\''] else [c]) ++ ['\'']

theorem run_single (w : Word) (out : List Token) (text : List Char) :
    run ⟨.single, some w, out⟩
        (text.flatMap fun c => if c = '\'' then ['\'', '\\', '\'', '\''] else [c]) =
      ⟨.single, some (w ++ text.map .quoted), out⟩ := by
  induction text generalizing w with
  | nil => simp [run]
  | cons c text ih =>
    have hchar : run ⟨.single, some w, out⟩
        (if c = '\'' then ['\'', '\\', '\'', '\''] else [c]) =
        ⟨.single, some (w ++ [.quoted c]), out⟩ := by
      split
      · next h =>
        rw [h]
        rfl
      · next h => exact if_neg h
    rw [List.flatMap_cons, run_append, hchar, ih, List.map_cons, List.append_assoc]
    rfl

/-- **Quoted text is its own characters**, in the word that is being read. -/
theorem run_quote (w : Option Word) (out : List Token) (text : List Char) :
    run ⟨.bare, w, out⟩ (quote text) =
      ⟨.bare, some (w.getD [] ++ text.map .quoted), out⟩ := by
  show run (step ⟨.bare, w, out⟩ '\'') (_ ++ ['\'']) = _
  rw [run_append]
  show run (run ⟨.single, some (w.getD []), out⟩ _) ['\''] = _
  rw [run_single]
  rfl

/-- The characters that are not read as themselves, wherever in a word they stand. -/
def specials : List Char :=
  ['\'', '"', '\\', '$', '\x60', ' ', '\t', '\n', '&', '|', ';', '<', '>', '(', ')']

theorem stepBare_plain {w : Option Word} {out : List Token} {c : Char} (h : c ∉ specials)
    (hcomment : ¬(c = '#' ∧ w = none)) :
    stepBare ⟨.bare, w, out⟩ c = ⟨.bare, some (w.getD [] ++ [.plain c]), out⟩ := by
  simp only [specials, List.mem_cons, List.not_mem_nil, or_false, not_or] at h
  obtain ⟨hsingle, hdouble, hbackslash, hdollar, hback, hspace, htab, hline, hop⟩ := h
  have hoperator : isOperator [c] = false := by
    simp [isOperator, hop]
  unfold stepBare
  rw [if_neg hsingle, if_neg hdouble, if_neg hbackslash, if_neg hdollar, if_neg hback,
    if_neg (not_or.mpr ⟨hspace, htab⟩), if_neg hline, hoperator, if_neg Bool.false_ne_true,
    if_neg hcomment]
  rfl

/-- **What is not special is read as it is.** -/
theorem run_plain (w : Word) (out : List Token) {text : List Char}
    (h : ∀ c ∈ text, c ∉ specials) :
    run ⟨.bare, some w, out⟩ text = ⟨.bare, some (w ++ text.map .plain), out⟩ := by
  induction text generalizing w with
  | nil => simp [run]
  | cons c text ih =>
    show run (stepBare ⟨.bare, some w, out⟩ c) text = _
    rw [stepBare_plain (h c List.mem_cons_self) (by simp), Option.getD_some,
      ih _ fun d hd => h d (List.mem_cons_of_mem c hd), List.map_cons, List.append_assoc]
    rfl

/-- It begins a word, if it is no comment. -/
theorem run_plain_none (out : List Token) {c : Char} {text : List Char} (hc : c ≠ '#')
    (h : ∀ d ∈ c :: text, d ∉ specials) :
    run ⟨.bare, none, out⟩ (c :: text) = ⟨.bare, some ((c :: text).map .plain), out⟩ := by
  show run (stepBare ⟨.bare, none, out⟩ c) text = _
  rw [stepBare_plain (h c List.mem_cons_self) fun hcomment => hc hcomment.1,
    run_plain _ _ fun d hd => h d (List.mem_cons_of_mem c hd)]
  rfl

/-- A comment goes on to the end of its line. -/
theorem run_comment (w : Option Word) (out : List Token) {text : List Char} (h : '\n' ∉ text) :
    run ⟨.comment, w, out⟩ text = ⟨.comment, w, out⟩ := by
  induction text with
  | nil => rfl
  | cons c text ih =>
    have hc : c ≠ '\n' := fun hc => h (hc ▸ List.mem_cons_self)
    have hstep : step ⟨.comment, w, out⟩ c = ⟨.comment, w, out⟩ := if_neg hc
    show run (step ⟨.comment, w, out⟩ c) text = _
    rw [hstep, ih fun hmem => h (List.mem_cons_of_mem c hmem)]

/-! ## Words among others -/

/-- What a word ends at. -/
def Ends (rest : List Char) : Prop := ∀ c ∈ rest.head?, c = ' ' ∨ c = '\n'

theorem run_word {w : Word} {front : List Token} {rest : List Char} (h : Ends rest) :
    (run ⟨.bare, some w, front⟩ rest).finish =
      ((run {} rest).after (front ++ [.word w])).finish := by
  cases rest with
  | nil => simp [run, Lexer.finish, Lexer.flush, Lexer.after]
  | cons c rest =>
    rw [← run_after]
    show (run (step ⟨.bare, some w, front⟩ c) rest).finish =
      (run (step (({} : Lexer).after (front ++ [.word w])) c) rest).finish
    rcases h c rfl with rfl | rfl
    · simp [step, stepBare, Lexer.flush, Lexer.enter, Lexer.after]
    · simp [step, stepBare, Lexer.flush, Lexer.enter, Lexer.after, Lexer.put]

variable {fixed text rest : List Char} {w : Option Word} {w' : Word} {front : List Token}

/-- **A word stands between the tokens before it and those behind it.** -/
theorem lex_append_word (hfixed : run {} fixed = ⟨.bare, w, front⟩)
    (htext : run ⟨.bare, w, front⟩ text = ⟨.bare, some w', front⟩) (hrest : Ends rest) :
    lex (fixed ++ (text ++ rest)) = (lex rest).map fun tokens => front ++ .word w' :: tokens := by
  unfold lex
  rw [run_append, run_append, hfixed, htext, run_word hrest, finish_after]
  simp

theorem mapM_quoted (text : List Char) :
    (text.map Piece.quoted).mapM Piece.literal = some text := by
  induction text with
  | nil => rfl
  | cons c text ih =>
    rw [List.map_cons, List.mapM_cons, ih]
    rfl

theorem mapM_plain {text : List Char} (h : ∀ c ∈ text, isPattern c = false) :
    (text.map Piece.plain).mapM Piece.literal = some text := by
  induction text with
  | nil => rfl
  | cons c text ih =>
    have hc : Piece.literal (.plain c) = some c := by
      simp [Piece.literal, h c List.mem_cons_self]
    rw [List.map_cons, List.mapM_cons, hc, ih fun d hd => h d (List.mem_cons_of_mem c hd)]
    rfl

/-- Two parts of a word. -/
theorem literal_append {front back : Word} {s t : List Char} (hfront : Word.literal front = some s)
    (hback : Word.literal back = some t) : Word.literal (front ++ back) = some (s ++ t) := by
  unfold Word.literal at hfront hback ⊢
  rw [List.mapM_append, hfront, hback]
  rfl

theorem words_append_word {before : List (List Char)} {t : List Char}
    (hfixed : run {} fixed = ⟨.bare, w, front⟩)
    (htext : run ⟨.bare, w, front⟩ text = ⟨.bare, some w', front⟩) (hrest : Ends rest)
    (hfront : front.mapM Token.literal = some before) (hw : Word.literal w' = some t) :
    words (fixed ++ (text ++ rest)) = (words rest).map fun after => before ++ t :: after := by
  unfold words
  rw [lex_append_word hfixed htext hrest]
  cases lex rest with
  | none => rfl
  | some tokens =>
    show (front ++ .word w' :: tokens).mapM Token.literal = (tokens.mapM Token.literal).map _
    have htoken : Token.literal (.word w') = some t := hw
    rw [List.mapM_append, List.mapM_cons, hfront, htoken]
    cases tokens.mapM Token.literal with
    | none => rfl
    | some after => rfl

/-- Quoted text leaves nothing to act on. -/
theorem skeleton_append_quoted (w : Word) (text : List Char) :
    Token.skeleton (.word (w ++ text.map .quoted)) = Token.skeleton (.word w) := by
  have hquoted : (text.map Piece.quoted).filter Piece.isActive = [] := by
    rw [List.filter_eq_nil_iff]
    intro piece hpiece
    obtain ⟨c, -, rfl⟩ := List.mem_map.mp hpiece
    exact Bool.false_ne_true
  unfold Token.skeleton
  dsimp only
  rw [List.filter_append, hquoted, List.append_nil]

/-! ## Assignments -/

theorem assigned_append (name : List Char) (front back : List Token) :
    assigned name (front ++ back) = assigned name front ++ assigned name back :=
  List.filterMap_append

/-- A word that begins with a name and an equals sign assigns. -/
theorem assignment_eq {name : List Char} (value : Word) (h : '=' ∉ name)
    (hvalid : isName (name.map .plain)) :
    Token.assignment (.word ((name ++ ['=']).map .plain ++ value)) =
      some (name.map .plain, value) := by
  have hname : ∀ piece ∈ name.map Piece.plain, decide (piece ≠ .plain '=') = true := by
    intro piece hpiece
    obtain ⟨c, hc, rfl⟩ := List.mem_map.mp hpiece
    refine decide_eq_true fun heq => h ?_
    cases heq
    exact hc
  have hshape : (name ++ ['=']).map Piece.plain ++ value =
      name.map .plain ++ .plain '=' :: value := by simp
  unfold Token.assignment
  rw [hshape]
  simp only [List.takeWhile_append_of_pos hname, List.dropWhile_append_of_pos hname]
  simp [hvalid]

/-- A word of quoted characters does not. -/
theorem assignment_quoted (text : List Char) :
    Token.assignment (.word (text.map .quoted)) = none := by
  have hall : (text.map Piece.quoted).dropWhile (fun piece => piece ≠ .plain '=') = [] := by
    rw [List.dropWhile_eq_nil_iff]
    intro piece hpiece
    obtain ⟨c, -, rfl⟩ := List.mem_map.mp hpiece
    rfl
  unfold Token.assignment
  dsimp only
  rw [hall]

theorem assigned_cons_assignment {target name : List Char} (value : Word) (tokens : List Token)
    (h : '=' ∉ name) (hvalid : isName (name.map .plain)) :
    assigned target (.word ((name ++ ['=']).map .plain ++ value) :: tokens) =
      if name = target then Word.literal value :: assigned target tokens
      else assigned target tokens := by
  have hiff : name.map Piece.plain = target.map Piece.plain ↔ name = target :=
    (List.map_inj_right fun _ _ heq => Piece.plain.inj heq)
  unfold assigned
  rw [List.filterMap_cons, assignment_eq value h hvalid]
  by_cases heq : name = target
  · simp [heq]
  · simp [hiff, heq]

theorem assigned_cons_quoted (name text : List Char) (tokens : List Token) :
    assigned name (.word (text.map .quoted) :: tokens) = assigned name tokens := by
  unfold assigned
  rw [List.filterMap_cons, assignment_quoted]

end Lib.Shell
