import DoctorClaw.Tools.Commands

/-!
# Tools on files

Reading, listing and searching, and the tools that change files: `write`,
`mkdir`, `rm`, `mv` and `edit`.  As everywhere, `buffer` is what the
parameters read after the last key was parsed.
-/

namespace DoctorClaw

open Interaction Command Decimal

/-- The matchers of the C library. -/
structure Libc where
  /-- `fnmatch (pattern, name, 0) == 0`. -/
  fnmatch : Bytes → Bytes → Bool
  /-- `regcomp` of an extended pattern that ignores case, and the lines that
  `regexec` then matches. -/
  regcomp : Bytes → Option (Bytes → Bool)

def noLibc : Libc := ⟨fun _ _ ↦ false, fun _ ↦ none⟩

/-! ## Reading -/

def maxFileSize : ℤ := 10485760

def readLines (lineStart lineCount : ℤ) : ℤ → Bytes → List Bytes → Bytes
  | _, result, [] => result
  | currentLine, result, line :: lines =>
      if result.length < toolResultSize - 1 then
        let currentLine := currentLine + 1
        if 0 < lineStart ∧ currentLine < lineStart then
          readLines lineStart lineCount currentLine result lines
        else if 0 < lineCount ∧ lineStart + lineCount ≤ currentLine then result
        else
          let text := CString.ofBuffer line
          if result.length + text.length < toolResultSize then
            readLines lineStart lineCount currentLine (result ++ text) lines
          else result
      else result

def toolFileReadExecute (workspaceDir params : Bytes) : ToolM Outcome :=
  match parseStringParam params (ascii "path") <|> parseStringParam params (ascii "file") with
  | none => failWith .zero (ascii "No path provided")
  | some path => do
    match ← Sys.realpath path with
    | none => failWith .zero (ascii "Could not resolve path: " ++ path)
    | some canonicalPath =>
      if workspaceDir ≠ [] ∧ ¬ workspaceDir <+: canonicalPath then
        failWith .zero (ascii "Path outside workspace not allowed")
      else
        match ← Sys.stat canonicalPath with
        | none =>
            let e ← Sys.strerror
            failWith .zero (ascii "Could not stat file: " ++ canonicalPath ++ ascii " (" ++ e ++
              ascii ")")
        | some st =>
          if st.isDir then failWith .zero (ascii "Path is a directory, not a file")
          else if maxFileSize < st.size then
            failWith .zero (ascii "File too large (max 10485760 bytes)")
          else
            let buffer := paramBuffer params (ascii "line_count")
            let lineStart := if hasParam params "line_start" then atoi buffer else 0
            let lineCount := if hasParam params "line_count" then atoi buffer else -1
            match ← Sys.fopenRead canonicalPath with
            | none =>
                let e ← Sys.strerror
                failWith .zero (ascii "Could not open file: " ++ canonicalPath ++ ascii " (" ++ e ++
                  ascii ")")
            | some file =>
                let lines := CString.fgetsLines 4096 file.length file
                succeedWith .zero (readLines lineStart lineCount 0 [] lines)

def toolStatExecute (params : Bytes) (r : ToolResult) : ToolM Outcome :=
  match parseStringParam params (ascii "path") with
  | none => failWith r (ascii "No path provided")
  | some path => do
    match ← Sys.stat path with
    | none =>
        let e ← Sys.strerror
        failWith r (ascii "Could not stat: " ++ path ++ ascii " (" ++ e ++ ascii ")")
    | some st =>
        let type := if st.isDir then "directory" else if st.isReg then "regular file" else "other"
        succeedWith r (CString.cut 4096 (ascii "Path: " ++ path ++ ascii "\nSize: " ++
          printInt st.size ++ ascii " bytes\nType: " ++ ascii type ++ ascii "\nPermissions: " ++
          printOctal (st.mode % 512) ++ ascii "\nModified: " ++ st.modified ++
          ascii "Accessed: " ++ st.accessed ++ ascii "Created: " ++ st.created))

def toolExistsExecute (params : Bytes) (r : ToolResult) : ToolM Outcome :=
  match parseStringParam params (ascii "path") with
  | none => failWith r (ascii "No path provided")
  | some path => do
    match ← Sys.stat path with
    | none => succeedWith r (ascii "false")
    | some st =>
        if st.isDir then succeedWith r (ascii "true (directory)")
        else if st.isReg then
          succeedWith r (ascii "true (file, " ++ printInt st.size ++ ascii " bytes)")
        else succeedWith r (ascii "true")

def imageFormat (header : Bytes) : String :=
  if [0xFF, 0xD8] <+: header then "JPEG"
  else if [0x89, 0x50, 0x4E, 0x47] <+: header then "PNG"
  else if [0x47, 0x49, 0x46] <+: header then "GIF"
  else if [0x42, 0x4D] <+: header then "BMP"
  else if [0x49, 0x49, 0x2A, 0x00] <+: header then "TIFF"
  else "unknown"

/-- The second `stat` is not checked, so the size may be anything. -/
def toolImageInfoExecute (params : Bytes) (r : ToolResult) : ToolM Outcome :=
  match parseStringParam params (ascii "path") with
  | none => failWith r (ascii "No image path provided")
  | some path => do
    match ← Sys.fopenRead path with
    | none =>
        let e ← Sys.strerror
        failWith r (ascii "Could not open file: " ++ e)
    | some file =>
        let header := file.take 24 ++ List.replicate (24 - file.length) 0
        let report (size : ℤ) : ToolM Outcome :=
          succeedWith r (ascii "Format: " ++ ascii (imageFormat header) ++ ascii ", Size: " ++
            printInt size ++ ascii " bytes")
        match ← Sys.stat path with
        | some st => report st.size
        | none =>
            let size ← Sys.indeterminate
            report size

def toolHardwareBoardInfoExecute (r : ToolResult) : ToolM Outcome := do
  let report (data : Bytes) : ToolM Outcome :=
    succeedWith r (collectLines 4096 [] (CString.fgetsLines 256 data.length data))
  match ← Sys.fopenRead (ascii "/proc/cpuinfo") with
  | some data => report data
  | none =>
    match ← Sys.popen (lit "system_profiler SPHardwareDataType 2>/dev/null") with
    | some data => report data
    | none => failWith r (ascii "Could not get hardware info")

def toolHardwareMemoryReadExecute (params : Bytes) (r : ToolResult) : ToolM Outcome :=
  let buffer := paramBuffer params (ascii "length")
  match paramPointer params "address" buffer with
  | none => failWith r (ascii "No address provided")
  | some addressStr => do
    let address := strtoul addressStr
    let length : ℤ := if hasParam params "length" then atoi buffer else 4
    let length : ℕ := if length < 0 ∨ 1024 < length then 1024 else length.toNat
    match ← Sys.readMem address length with
    | none => failWith r (ascii "Cannot read memory (need root)")
    | some data =>
        succeedWith r (ascii "Read " ++ printNat data.length ++ ascii " bytes from 0x" ++
          printHex address ++ ascii ": " ++ data.flatMap fun b ↦ printHexByte b ++ [32])

def toolHardwareMemoryMapExecute (r : ToolResult) : ToolM Outcome := do
  match ← Sys.fopenRead (ascii "/proc/iomem") with
  | none => failWith r (ascii "Could not read memory map")
  | some data =>
      succeedWith r (collectLines 8192 [] (CString.fgetsLines 256 data.length data))

/-! ## Listing and searching -/

def globNames (libc : Libc) (pattern : Bytes) : Bytes → List Bytes → Bytes
  | output, [] => output
  | output, name :: names =>
      if libc.fnmatch pattern name ∧ name ≠ ascii "." ∧ name ≠ ascii ".." ∧
          output.length + name.length + 2 < 16384 then
        globNames libc pattern (output ++ (if output = [] then name else 10 :: name)) names
      else globNames libc pattern output names

def toolGlobExecute (libc : Libc) (params : Bytes) (r : ToolResult) : ToolM Outcome :=
  let lastKey := if hasParam params "pattern" then "path" else "glob"
  let buffer := paramBuffer params (ascii lastKey)
  match paramPointer params "pattern" buffer <|> paramPointer params "glob" buffer with
  | none => failWith r (ascii "No pattern provided")
  | some pattern => do
    let basePath := (paramPointer params "path" buffer).getD (ascii ".")
    match ← Sys.opendir basePath with
    | none =>
        let e ← Sys.strerror
        failWith r (ascii "Could not open directory: " ++ e)
    | some names =>
        let output := globNames libc pattern [] names
        if output = [] then
          succeedWith r (CString.cut 16384 (ascii "No files matching pattern: " ++ pattern))
        else succeedWith r output

/-- The matching lines of one file.  The text is cut to the buffer at the end,
its length is what the loops compare. -/
def grepLines (isMatch : Bytes → Bool) (path : Bytes) : ℕ → Bytes → List Bytes → Bytes
  | _, output, [] => output
  | lineNum, output, line :: lines =>
      if output.length < 16383 then
        let text := CString.ofBuffer line
        if isMatch text then
          grepLines isMatch path (lineNum + 1)
            (output ++ path ++ [58] ++ printNat (lineNum + 1) ++ ascii ": " ++ text) lines
        else grepLines isMatch path (lineNum + 1) output lines
      else output

def grepFile (isMatch : Bytes → Bool) (path output : Bytes) : ToolM Bytes := do
  match ← Sys.fopenRead path with
  | none => return output
  | some file =>
      return grepLines isMatch path 0 output (CString.fgetsLines 4096 file.length file)

def grepDir (libc : Libc) (isMatch : Bytes → Bool) (targetPath : Bytes)
    (includeStr : Option Bytes) : Bytes → List Bytes → ToolM Bytes
  | output, [] => return output
  | output, name :: names =>
      if 16383 ≤ output.length then return output
      else if name.head? = some 46 then
        grepDir libc isMatch targetPath includeStr output names
      else do
        let fullPath := CString.cut 2048 (targetPath ++ [47] ++ name)
        let st ← Sys.stat fullPath
        if st.any StatInfo.isReg ∧ includeStr.all fun glob ↦ libc.fnmatch glob name then do
          let output ← grepFile isMatch fullPath output
          grepDir libc isMatch targetPath includeStr output names
        else grepDir libc isMatch targetPath includeStr output names

def grepTarget (libc : Libc) (isMatch : Bytes → Bool) (targetPath : Bytes)
    (includeStr : Option Bytes) : ToolM Bytes := do
  let st ← Sys.stat targetPath
  if st.any StatInfo.isReg then grepFile isMatch targetPath []
  else
    match ← Sys.opendir targetPath with
    | none => return []
    | some names => grepDir libc isMatch targetPath includeStr [] names

def toolGrepExecute (libc : Libc) (params : Bytes) (r : ToolResult) : ToolM Outcome :=
  let buffer := paramBuffer params (ascii "include")
  match paramPointer params "pattern" buffer with
  | none => failWith r (ascii "No pattern provided")
  | some pattern =>
    match libc.regcomp pattern with
    | none => failWith r (ascii "Invalid regex pattern")
    | some isMatch => do
      let targetPath := CString.cut 1024 ((paramPointer params "path" buffer).getD (ascii "."))
      let output ← grepTarget libc isMatch targetPath (paramPointer params "include" buffer)
      if output = [] then
        succeedWith r (CString.cut 16384 (ascii "No matches found for: " ++ pattern))
      else succeedWith r (CString.cut 16384 output)

def permissions (st : StatInfo) : Bytes :=
  let bit (mask : ℕ) (c : UInt8) : UInt8 := if st.mode / mask % 2 = 1 then c else 45
  [if st.isDir then 100 else 45, bit 256 114, bit 128 119, bit 64 120, bit 32 114, bit 16 119,
    bit 8 120, bit 4 114, bit 2 119, bit 1 120]

def padTen (s : Bytes) : Bytes := List.replicate (10 - s.length) 32 ++ s

def listDir (path : Bytes) (showAll longList : Bool) : Bytes → List Bytes → ToolM Bytes
  | output, [] => return output
  | output, name :: names =>
      if 16383 ≤ output.length then return output
      else if !showAll ∧ name.head? = some 46 then listDir path showAll longList output names
      else if longList then do
        match ← Sys.stat (CString.cut 2048 (path ++ [47] ++ name)) with
        | some st => listDir path showAll longList (output ++ padTen (printInt st.size) ++ [32] ++
            permissions st ++ [32] ++ name ++ [10]) names
        | none => listDir path showAll longList output names
      else listDir path showAll longList (output ++ name ++ [10]) names

def toolListExecute (params : Bytes) (r : ToolResult) : ToolM Outcome := do
  let buffer := paramBuffer params (ascii "long")
  let path := (paramPointer params "path" buffer).getD (ascii ".")
  let showAll := isTrue (paramPointer params "all" buffer)
  let longList := isTrue (paramPointer params "long" buffer)
  match ← Sys.opendir path with
  | none =>
      let e ← Sys.strerror
      failWith r (ascii "Could not open directory: " ++ e)
  | some names =>
      let output ← listDir path showAll longList [] names
      succeedWith r (CString.cut 16384 output)

/-! ## Changing files -/

/-- The key parsed last depends on which key the content was found under. -/
def toolFileWriteExecute (params : Bytes) (r : ToolResult) : ToolM Outcome :=
  let lastKey := if hasParam params "content" then "append"
    else if hasParam params "text" then "text" else "data"
  let buffer := paramBuffer params (ascii lastKey)
  match paramPointer params "path" buffer with
  | none => failWith r (ascii "No path provided")
  | some path => do
    let content := paramPointer params "content" buffer <|> paramPointer params "text" buffer <|>
      paramPointer params "data" buffer
    let append := isTrue (paramPointer params "append" buffer)
    let opened ← Sys.fopenWrite path append
    let report : ToolM Outcome := succeedWith r (ascii "Written " ++
      printNat (content.getD []).length ++ ascii " bytes to " ++ path)
    if opened then
      match content with
      | some content => do
          Sys.fwrite content
          report
      | none => report
    else
      let e ← Sys.strerror
      failWith r (ascii "Could not write file: " ++ path ++ ascii " (" ++ e ++ ascii ")")

def toolMkdirExecute (params : Bytes) (r : ToolResult) : ToolM Outcome :=
  let buffer := paramBuffer params (ascii "mode")
  match paramPointer params "path" buffer with
  | none => failWith r (ascii "No path provided")
  | some path => do
    let mode := match paramPointer params "mode" buffer with
      | some modeStr => (strtolOctal modeStr).bmod (2 ^ 32)
      | none => 493
    let made ← Sys.mkdir path mode
    if made then succeedWith r (ascii "Created directory: " ++ path)
    else
      let e ← Sys.strerror
      failWith r (ascii "Failed to create directory: " ++ e)

def toolRmExecute (params : Bytes) (r : ToolResult) : ToolM Outcome :=
  let buffer := paramBuffer params (ascii "force")
  let finish (path : Bytes) (removed : Bool) : ToolM Outcome :=
    if removed then succeedWith r (ascii "Removed: " ++ path)
    else do
      let e ← Sys.strerror
      failWith r (ascii "Failed to remove: " ++ e)
  match paramPointer params "path" buffer with
  | none => failWith r (ascii "No path provided")
  | some path => do
    match ← Sys.stat path with
    | none =>
        if isTrue (paramPointer params "force" buffer) then
          succeedWith r (ascii "File not found (ignored)")
        else failWith r (ascii "Path does not exist: " ++ path)
    | some st =>
        if st.isDir then
          if isTrue (paramPointer params "recursive" buffer) then
            let code ← Sys.system (Command.cut 2048 (lit "rm -rf " ++ arg path))
            finish path (code = 0)
          else
            let removed ← Sys.rmdir path
            finish path removed
        else
          let removed ← Sys.unlink path
          finish path removed

def toolMvExecute (params : Bytes) (r : ToolResult) : ToolM Outcome :=
  let buffer := paramBuffer params (ascii "destination")
  match paramPointer params "src" buffer with
  | none => failWith r (ascii "No source provided")
  | some src =>
    match paramPointer params "dest" buffer <|> paramPointer params "destination" buffer with
    | none => failWith r (ascii "No destination provided")
    | some destination => do
      let moved ← Sys.rename src destination
      if moved then succeedWith r (ascii "Moved " ++ src ++ ascii " to " ++ destination)
      else
        let e ← Sys.strerror
        failWith r (ascii "Failed to move: " ++ e)

def editBufferSize : ℕ := 65536

def appendFitting (output s : Bytes) : Bytes :=
  if output.length + s.length < editBufferSize - 1 then output ++ s else output

/-- The replacement loop; `none` when it does not end within `fuel` rounds. -/
def editLoop (find : Bytes) (replace : Option Bytes) : ℕ → Bytes → Bytes → Option Bytes
  | 0, _, _ => none
  | fuel + 1, output, p =>
      match CString.strstr find p with
      | some found =>
          if output.length < editBufferSize - 1 then
            let before := p.take (p.length - found.length)
            let output := appendFitting output before
            let output := appendFitting output (replace.getD [])
            editLoop find replace fuel output (found.drop find.length)
          else some (appendFitting output p)
      | none => some (appendFitting output p)

def editContent (find : Bytes) (replace : Option Bytes) (content : Bytes) : Option Bytes :=
  editLoop find replace (content.length + 1) [] content

theorem editContent_nil {find : Bytes} (hfind : find ≠ []) (replace : Option Bytes) :
    editContent find replace [] = some [] := by
  have hnone : CString.strstr find [] = none := if_neg hfind
  rw [editContent, List.length_nil, editLoop, hnone]
  rfl

def toolEditExecute (params : Bytes) (r : ToolResult) : ToolM Outcome :=
  let buffer := paramBuffer params (ascii "replace")
  match paramPointer params "path" buffer with
  | none => failWith r (ascii "No path provided")
  | some path =>
    match paramPointer params "find" buffer with
    | none => failWith r (ascii "No find pattern provided")
    | some find => do
      match ← Sys.fopenRead path with
      | none =>
          let e ← Sys.strerror
          failWith r (ascii "Could not open file: " ++ e)
      | some file =>
        let content := CString.ofBuffer (file.take (editBufferSize - 1))
        match editContent find (paramPointer params "replace" buffer) content with
        | none => .halt
        | some output =>
          let opened ← Sys.fopenWrite path false
          if opened then do
            Sys.fwrite output
            succeedWith r (ascii "Applied edit to " ++ path)
          else
            let e ← Sys.strerror
            failWith r (ascii "Could not write file: " ++ e)

end DoctorClaw
