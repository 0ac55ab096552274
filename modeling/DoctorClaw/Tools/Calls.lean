import DoctorClaw.Lib.Interaction
import DoctorClaw.Tools.Gate

/-!
# What tools call

A tool is a program that calls the operating system, and here and there a
function of the process that is worth watching.  The calls carry their
arguments.  In a command that goes to a shell every byte is marked when it
comes from the parameters of the tool, numbers read from them included.

`strerror` stands for the text of the last error, `indeterminate` for a read
of a variable that was never written, and a program dies where the source
follows a null pointer or writes past a buffer.
-/

namespace DoctorClaw

open Interaction

/-! ## Commands -/

/-- The text of a command, each byte with a mark that says whether it comes
from the parameters. -/
abbrev Command := List (UInt8 × Bool)

namespace Command

def lit (s : String) : Command := (ascii s).map fun c ↦ (c, false)

def arg (s : Bytes) : Command := s.map fun c ↦ (c, true)

def text (cmd : Command) : Bytes := cmd.map Prod.fst

def fromParams (cmd : Command) : Bool := cmd.any Prod.snd

def cut (size : ℕ) (cmd : Command) : Command := cmd.take (size - 1)

end Command

/-! ## Calls and replies -/

structure StatInfo where
  isDir : Bool
  isReg : Bool
  mode : ℕ
  size : ℤ
  /-- The three times as `ctime` prints them. -/
  modified : Bytes
  accessed : Bytes
  created : Bytes

structure HttpReply where
  ok : Bool
  data : Bytes

inductive Call
  | getenv (name : Bytes)
  | environ
  | setenv (name value : Bytes)
  | unsetenv (name : Bytes)
  | strerror
  | indeterminate
  | realpath (path : Bytes)
  | stat (path : Bytes)
  | fopenRead (path : Bytes)
  | opendir (path : Bytes)
  | readMem (address length : ℕ)
  | httpGet (url : Bytes) (headers : List Bytes)
  | httpPost (url : Bytes) (headers : List Bytes) (body : Bytes)
  | fopenWrite (path : Bytes) (append : Bool)
  | fwrite (content : Bytes)
  | mkdir (path : Bytes) (mode : ℤ)
  | rename (src dest : Bytes)
  | unlink (path : Bytes)
  | rmdir (path : Bytes)
  | passedDangerCheck (command : Bytes)
  | system (cmd : Command)
  | popen (cmd : Command)
  | runWithTimeout (cmd : Command) (timeout : ℤ) (shell : Option Bytes)
  deriving DecidableEq

/-- An opened file, directory or pipe replies with all there is to read. -/
@[reducible] def Call.Reply : Call → Type
  | .getenv _ => Option Bytes
  | .environ => List Bytes
  | .setenv _ _ => Bool
  | .unsetenv _ => Unit
  | .strerror => Bytes
  | .indeterminate => ℤ
  | .realpath _ => Option Bytes
  | .stat _ => Option StatInfo
  | .fopenRead _ => Option Bytes
  | .opendir _ => Option (List Bytes)
  | .readMem _ _ => Option Bytes
  | .httpGet _ _ => HttpReply
  | .httpPost _ _ _ => HttpReply
  | .fopenWrite _ _ => Bool
  | .fwrite _ => Unit
  | .mkdir _ _ => Bool
  | .rename _ _ => Bool
  | .unlink _ => Bool
  | .rmdir _ => Bool
  | .passedDangerCheck _ => Unit
  | .system _ => ℤ
  | .popen _ => Option Bytes
  | .runWithTimeout _ _ _ => ℤ × Bytes

/-- What a world without files, variables and servers replies, where commands
do nothing. -/
def Call.emptyReply : (c : Call) → c.Reply
  | .getenv _ => none
  | .environ => []
  | .setenv _ _ => true
  | .unsetenv _ => ()
  | .strerror => []
  | .indeterminate => 0
  | .realpath _ => none
  | .stat _ => none
  | .fopenRead _ => none
  | .opendir _ => none
  | .readMem _ _ => none
  | .httpGet _ _ => ⟨false, []⟩
  | .httpPost _ _ _ => ⟨false, []⟩
  | .fopenWrite _ _ => false
  | .fwrite _ => ()
  | .mkdir _ _ => false
  | .rename _ _ => false
  | .unlink _ => false
  | .rmdir _ => false
  | .passedDangerCheck _ => ()
  | .system _ => 0
  | .popen _ => some []
  | .runWithTimeout _ _ _ => (0, [])

instance (c : Call) : Nonempty c.Reply := ⟨c.emptyReply⟩

abbrev ToolM := Prog Call Call.Reply

namespace Sys

def getenv (name : Bytes) : ToolM (Option Bytes) := .perform (Call.getenv name)

def environ : ToolM (List Bytes) := .perform Call.environ

def setenv (name value : Bytes) : ToolM Bool := .perform (Call.setenv name value)

def unsetenv (name : Bytes) : ToolM Unit := .perform (Call.unsetenv name)

def strerror : ToolM Bytes := .perform Call.strerror

def indeterminate : ToolM ℤ := .perform Call.indeterminate

def realpath (path : Bytes) : ToolM (Option Bytes) := .perform (Call.realpath path)

def stat (path : Bytes) : ToolM (Option StatInfo) := .perform (Call.stat path)

def fopenRead (path : Bytes) : ToolM (Option Bytes) := .perform (Call.fopenRead path)

def opendir (path : Bytes) : ToolM (Option (List Bytes)) := .perform (Call.opendir path)

def readMem (address length : ℕ) : ToolM (Option Bytes) := .perform (Call.readMem address length)

def httpGet (url : Bytes) (headers : List Bytes) : ToolM HttpReply :=
  .perform (Call.httpGet url headers)

def httpPost (url : Bytes) (headers : List Bytes) (body : Bytes) : ToolM HttpReply :=
  .perform (Call.httpPost url headers body)

def fopenWrite (path : Bytes) (append : Bool) : ToolM Bool := .perform (Call.fopenWrite path append)

def fwrite (content : Bytes) : ToolM Unit := .perform (Call.fwrite content)

def mkdir (path : Bytes) (mode : ℤ) : ToolM Bool := .perform (Call.mkdir path mode)

def rename (src dest : Bytes) : ToolM Bool := .perform (Call.rename src dest)

def unlink (path : Bytes) : ToolM Bool := .perform (Call.unlink path)

def rmdir (path : Bytes) : ToolM Bool := .perform (Call.rmdir path)

def passedDangerCheck (command : Bytes) : ToolM Unit := .perform (Call.passedDangerCheck command)

def system (cmd : Command) : ToolM ℤ := .perform (Call.system cmd)

def popen (cmd : Command) : ToolM (Option Bytes) := .perform (Call.popen cmd)

def runWithTimeout (cmd : Command) (timeout : ℤ) (shell : Option Bytes) : ToolM (ℤ × Bytes) :=
  .perform (Call.runWithTimeout cmd timeout shell)

end Sys

/-! ## Results -/

structure ToolResult where
  name : Bytes
  result : Bytes
  success : Bool
  error : Bytes
  deriving DecidableEq

def ToolResult.zero : ToolResult := ⟨[], [], false, []⟩

def toolResultSize : ℕ := 16384

def toolErrorSize : ℕ := 512

def ToolResult.printResult (r : ToolResult) (s : Bytes) : ToolResult :=
  { r with result := CString.cut toolResultSize s }

def ToolResult.printError (r : ToolResult) (s : Bytes) : ToolResult :=
  { r with error := CString.cut toolErrorSize s }

/-- What a tool leaves: whether it returned 0, and the result it filled. -/
abbrev Outcome := Bool × ToolResult

def failWith (r : ToolResult) (s : Bytes) : ToolM Outcome := .ret (false, r.printError s)

def succeedWith (r : ToolResult) (s : Bytes) : ToolM Outcome :=
  .ret (true, { r.printResult s with success := true })

/-! ## Parameters -/

def hasParam (params : Bytes) (key : String) : Bool := paramBuffer params (ascii key) ≠ []

/-- The pointer that `parse_string_param` returned for `key`, read when the
buffer behind it holds `buffer`. -/
def paramPointer (params : Bytes) (key : String) (buffer : Bytes) : Option Bytes :=
  if hasParam params key then some buffer else none

theorem paramPointer_of_true {params : Bytes} {key : String} (h : hasParam params key = true)
    (buffer : Bytes) : paramPointer params key buffer = some buffer := by simp [paramPointer, h]

theorem paramPointer_of_false {params : Bytes} {key : String} (h : hasParam params key = false)
    (buffer : Bytes) : paramPointer params key buffer = none := by simp [paramPointer, h]

theorem paramPointer_orElse {params : Bytes} (key key' : String) (buffer : Bytes) :
    (paramPointer params key buffer <|> paramPointer params key' buffer) =
      if hasParam params key || hasParam params key' then some buffer else none := by
  cases h : hasParam params key <;> simp [paramPointer, h]

end DoctorClaw
