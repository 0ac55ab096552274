import Mathlib.Data.Option.Basic
import DoctorClaw.Lib.CString

/-!
# Words of a shell command

How a POSIX shell cuts a command into tokens and removes the quotes: between
single quotes every byte stands for itself, between double quotes a backslash
may escape the next byte, and outside of quotes blanks separate words.

What a shell would expand is left out: a command with an unquoted `$`, a
pattern or a comment has no tokens here.
-/

namespace Shell

/-! ## Tokens -/

/-- A number stands in front of a redirection; a newline is an operator. -/
inductive Token
  | word (text : Bytes)
  | number (text : Bytes)
  | operator (c : UInt8)
  deriving DecidableEq

inductive Mode
  | unquoted
  | escaped
  | single
  | double
  | escapedInDouble
  deriving DecidableEq

/-- The tokens so far, and the word that is being read with a mark that says
whether no part of it was quoted. -/
structure Lexer where
  mode : Mode
  word : Option (Bytes × Bool)
  tokens : List Token
  deriving DecidableEq

def Lexer.start : Lexer := ⟨.unquoted, none, []⟩

def isBlank (c : UInt8) : Bool := c = 32 || c = 9

/-- `&`, `(`, `)`, `;`, `<`, `>`, `|` and the newline. -/
def isOperator (c : UInt8) : Bool := c ∈ ([38, 40, 41, 59, 60, 62, 124, 10] : Bytes)

def isRedirection (c : UInt8) : Bool := c = 60 || c = 62

/-- Bytes that may start an expansion, a pattern, a comment or an assignment:
`!`, `#`, `$`, `*`, `=`, `?`, `[`, the grave accent, the braces and `~`. -/
def isExpanded (c : UInt8) : Bool :=
  c ∈ ([33, 35, 36, 42, 61, 63, 91, 96, 123, 125, 126] : Bytes)

def isDigit (c : UInt8) : Bool := 48 ≤ c && c ≤ 57

namespace Lexer

variable (l : Lexer)

def text : Bytes := (l.word.map Prod.fst).getD []

/-- The text becomes part of the word. -/
def quote (s : Bytes) : Lexer := { l with word := some (l.text ++ s, false) }

def plain (c : UInt8) : Lexer :=
  { l with word := some (l.text ++ [c], (l.word.map Prod.snd).getD true) }

/-- The word ends in front of `next`. -/
def flush (next : Option UInt8) : Lexer :=
  match l.word with
  | none => l
  | some (text, bare) =>
      let token := if bare && next.any isRedirection && text.all isDigit then .number text
        else .word text
      { l with word := none, tokens := l.tokens ++ [token] }

def step (c : UInt8) : Option Lexer :=
  match l.mode with
  | .unquoted =>
      if c = 39 then some { l.quote [] with mode := .single }
      else if c = 34 then some { l.quote [] with mode := .double }
      else if c = 92 then some { l with mode := .escaped }
      else if isBlank c then some (l.flush none)
      else if isOperator c then
        let l := l.flush (some c)
        some { l with tokens := l.tokens ++ [.operator c] }
      else if isExpanded c then none
      else some (l.plain c)
  | .escaped =>
      -- an escaped newline joins two lines
      if c = 10 then some { l with mode := .unquoted }
      else some { l.quote [c] with mode := .unquoted }
  | .single => if c = 39 then some { l with mode := .unquoted } else some (l.quote [c])
  | .double =>
      if c = 34 then some { l with mode := .unquoted }
      else if c = 92 then some { l with mode := .escapedInDouble }
      else if c = 36 ∨ c = 96 then none
      else some (l.quote [c])
  | .escapedInDouble =>
      if c = 10 then some { l with mode := .double }
      else if c ∈ ([34, 36, 92, 96] : Bytes) then some { l.quote [c] with mode := .double }
      else some { l.quote [92, c] with mode := .double }

def read (l : Lexer) : Bytes → Option Lexer
  | [] => some l
  | c :: s => (l.step c).bind fun l ↦ l.read s

end Lexer

/-- The tokens of a command; `none` where a quote is left open. -/
def tokens (command : Bytes) : Option (List Token) :=
  (Lexer.start.read command).bind fun l ↦
    if l.mode = .unquoted then some (l.flush none).tokens else none

/-- The words of the first simple command, without its redirections. -/
def simpleCommand : List Token → List Bytes
  | .word text :: rest => text :: simpleCommand rest
  | .number _ :: rest => simpleCommand rest
  | .operator c :: .word _ :: rest => if isRedirection c then simpleCommand rest else []
  | _ => []

def arguments (command : Bytes) : Option (List Bytes) := (tokens command).map simpleCommand

/-! ## Reading -/

namespace Lexer

variable {l : Lexer}

theorem read_append (l : Lexer) (s t : Bytes) :
    l.read (s ++ t) = (l.read s).bind fun l ↦ l.read t := by
  induction s generalizing l with
  | nil => rfl
  | cons c s ih =>
      rw [List.cons_append, read, read, Option.bind_assoc]
      exact congrArg _ (funext fun l ↦ ih l)

theorem read_append_of {s : Bytes} {l' : Lexer} (h : l.read s = some l') (t : Bytes) :
    l.read (s ++ t) = l'.read t := by
  rw [read_append, h, Option.bind_some]

theorem quote_quote (l : Lexer) (s t : Bytes) : (l.quote s).quote t = l.quote (s ++ t) := by
  simp [quote, text]

/-- A single quote was opened, and `s` stands behind it so far. -/
def inSingle (l : Lexer) (s : Bytes) : Lexer := { l.quote s with mode := .single }

theorem step_open (hmode : l.mode = .unquoted) : l.step 39 = some (l.inSingle []) := by
  rw [step, hmode]
  rfl

theorem step_inSingle {c : UInt8} (hc : c ≠ 39) (l : Lexer) (s : Bytes) :
    (l.inSingle s).step c = some (l.inSingle (s ++ [c])) := by
  have hquote : (l.inSingle s).quote [c] = l.inSingle (s ++ [c]) := by
    simp [inSingle, quote, text]
  rw [← hquote]
  exact if_neg hc

theorem step_close (hmode : l.mode = .unquoted) (s : Bytes) :
    (l.inSingle s).step 39 = some (l.quote s) := by
  have hclosed : { l.inSingle s with mode := .unquoted } = l.quote s := by
    simp [inSingle, quote, hmode]
  rw [← hclosed]
  rfl

/-- Two quotes inside of a quoted text leave it and enter it again. -/
theorem read_twoQuotes (hmode : l.mode = .unquoted) (s : Bytes) :
    (l.inSingle s).read [39, 39] = some (l.inSingle s) := by
  have hagain : (l.quote s).inSingle [] = l.inSingle s := by
    rw [inSingle, quote_quote, List.append_nil, inSingle]
  rw [read, step_close hmode, Option.bind_some, read,
    step_open (l := l.quote s) hmode, Option.bind_some, hagain]
  rfl

/-- Between single quotes every byte stands for itself. -/
theorem read_inSingle {t : Bytes} (ht : (39 : UInt8) ∉ t) (l : Lexer) (s : Bytes) :
    (l.inSingle s).read t = some (l.inSingle (s ++ t)) := by
  induction t generalizing s with
  | nil => rw [List.append_nil]; rfl
  | cons c t ih =>
      have hc : c ≠ 39 := fun h ↦ ht (h ▸ List.mem_cons_self)
      rw [read, step_inSingle hc, Option.bind_some, ih fun h ↦ ht (List.mem_cons_of_mem _ h),
        List.append_assoc, List.singleton_append]

theorem read_quoted (hmode : l.mode = .unquoted) {s : Bytes} (hs : (39 : UInt8) ∉ s) :
    l.read (39 :: s ++ [39]) = some (l.quote s) := by
  rw [List.cons_append, read, step_open hmode, Option.bind_some,
    read_append_of (read_inSingle hs l []), List.nil_append, read, step_close hmode]
  rfl

end Lexer

theorem arguments_of_read {command : Bytes} {l : Lexer} (h : Lexer.start.read command = some l)
    (hmode : l.mode = .unquoted) :
    arguments command = some (simpleCommand (l.flush none).tokens) := by
  rw [arguments, tokens, h, Option.bind_some, if_pos hmode, Option.map_some]

end Shell
