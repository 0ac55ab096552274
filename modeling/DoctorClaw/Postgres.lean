import DoctorClaw.Lib.Shell
import DoctorClaw.Tools.Commands

/-!
# Queries through psql

`run_psql_query` puts a query between single quotes into a shell command.  It
doubles the quotes of the query, as SQL does, and writes a newline as two
characters.  The shell reads a doubled quote as nothing, so only a query
without quotes and newlines reaches psql as it was.
-/

namespace DoctorClaw

open Interaction

/-! ## The query -/

/-- The loop that fills `escaped_sql`, with room for `remaining` bytes. -/
def escapeSql : ℕ → Bytes → Bytes
  | _, [] => []
  | remaining, c :: sql =>
      if remaining = 0 then []
      else if c = 39 then
        if 2 ≤ remaining then 39 :: 39 :: escapeSql (remaining - 2) sql else escapeSql remaining sql
      else if c = 10 then
        if 2 ≤ remaining then 92 :: 110 :: escapeSql (remaining - 2) sql
        else escapeSql remaining sql
      else c :: escapeSql (remaining - 1) sql

def escapedSqlSize : ℕ := 4096

def psqlCommandSize : ℕ := 8192

def psqlText (connectionString escapedSql : Bytes) : Bytes :=
  ascii "psql '" ++ connectionString ++ ascii "' -t -c '" ++ escapedSql ++ ascii "' 2>/dev/null"

inductive PsqlCall
  | popen (cmd : Bytes)

/-- All there is to read, and the status `pclose` returns. -/
@[reducible] def PsqlCall.Reply : PsqlCall → Type
  | .popen _ => Option (Bytes × ℤ)

def trimOutput (output : Bytes) : Bytes := output.rdropWhile fun c ↦ c = 10 || c = 32

/-- Whether 0 is returned, and the output; without a pipe nothing is written. -/
def runPsqlQuery (connectionString : Option Bytes) (sql : Bytes) (outputSize : ℕ) :
    Prog PsqlCall PsqlCall.Reply (Bool × Option Bytes) := do
  let escaped := escapeSql (escapedSqlSize - 1) sql
  let cmd := CString.cut psqlCommandSize (psqlText (connectionString.getD []) escaped)
  match ← .perform (PsqlCall.popen cmd) with
  | none => return (false, none)
  | some (data, status) =>
      let output := collectLines outputSize [] (CString.fgetsLines 256 data.length data)
      return (status = 0, some (trimOutput output))

inductive MemoryCategory
  | shortTerm
  | longTerm
  | core
  | working

def MemoryCategory.column : MemoryCategory → String
  | .shortTerm => "short_term"
  | .longTerm => "long_term"
  | .core => "core"
  | .working => "working"

/-- The fields of `memory_t` that the Postgres backend reads. -/
structure Memory where
  connectionString : Bytes
  initialized : Bool

structure MemoryItem where
  key : Bytes
  value : Bytes
  category : MemoryCategory

def insertHead : Bytes :=
  ascii "INSERT INTO doctorclaw.memory " ++
    ascii "(id, key, content, category, created_at, updated_at) " ++
    ascii "VALUES (gen_random_uuid(), '"

def MemoryItem.insertSql (item : MemoryItem) : Bytes :=
  CString.cut 4096 (insertHead ++ (item.key ++ ascii "', '" ++ item.value ++ ascii "', '" ++
    ascii item.category.column ++ ascii "', NOW(), NOW()) " ++
    ascii "ON CONFLICT (key) DO UPDATE SET content = EXCLUDED.content, " ++
    ascii "category = EXCLUDED.category, updated_at = NOW()"))

def memoryPostgresStore (mem : Memory) (item : MemoryItem) :
    Prog PsqlCall PsqlCall.Reply Bool :=
  if mem.initialized then do
    let result ← runPsqlQuery (some mem.connectionString) item.insertSql 256
    return result.1
  else return false

/-! ## What the shell reads -/

/-- The query as it is written, without a limit. -/
def sqlByte (c : UInt8) : Bytes := if c = 39 then [39, 39] else if c = 10 then [92, 110] else [c]

/-- What a doubled quote and a newline turn into. -/
def readByte (c : UInt8) : Bytes := if c = 39 then [] else if c = 10 then [92, 110] else [c]

def quotedSql (sql : Bytes) : Bytes := sql.flatMap sqlByte

def readSql (sql : Bytes) : Bytes := sql.flatMap readByte

theorem escapeSql_eq {n : ℕ} {sql : Bytes} (h : (quotedSql sql).length ≤ n) :
    escapeSql n sql = quotedSql sql := by
  induction sql generalizing n with
  | nil => rw [escapeSql]; rfl
  | cons c sql ih =>
      have hcons : quotedSql (c :: sql) = sqlByte c ++ quotedSql sql := rfl
      rw [hcons, List.length_append] at h
      rw [hcons, escapeSql, sqlByte]
      rw [sqlByte] at h
      split_ifs at h ⊢ <;> simp only [List.length_cons, List.length_nil] at h
      · omega
      · omega
      · omega
      · rw [ih (by omega)]; rfl
      · omega
      · rw [ih (by omega)]; rfl
      · omega
      · rw [ih (by omega)]; rfl

/-- Inside of the quotes the query is read byte by byte. -/
theorem read_quotedSql {l : Shell.Lexer} (hmode : l.mode = .unquoted) (s sql : Bytes) :
    (l.inSingle s).read (quotedSql sql) = some (l.inSingle (s ++ readSql sql)) := by
  induction sql generalizing s with
  | nil => rw [readSql, List.flatMap_nil, List.append_nil]; rfl
  | cons c sql ih =>
      have hbyte : (l.inSingle s).read (sqlByte c) = some (l.inSingle (s ++ readByte c)) := by
        unfold sqlByte readByte
        split_ifs with hquote hnewline
        · rw [List.append_nil, Shell.Lexer.read_twoQuotes hmode]
        · exact Shell.Lexer.read_inSingle (by decide) l s
        · exact Shell.Lexer.read_inSingle (by simpa using Ne.symm hquote) l s
      have hcons : quotedSql (c :: sql) = sqlByte c ++ quotedSql sql := rfl
      rw [hcons, Shell.Lexer.read_append_of hbyte, ih, List.append_assoc]
      rfl

theorem psqlText_eq (connectionString escapedSql : Bytes) :
    psqlText connectionString escapedSql =
      ascii "psql " ++ ((39 :: connectionString ++ [39]) ++ (ascii " -t -c " ++
        (39 :: (escapedSql ++ (39 :: ascii " 2>/dev/null"))))) := by
  have hfirst : ascii "psql '" = ascii "psql " ++ [39] := by decide
  have hoptions : ascii "' -t -c '" = [39] ++ ascii " -t -c " ++ [39] := by decide
  have hlast : ascii "' 2>/dev/null" = [39] ++ ascii " 2>/dev/null" := by decide
  rw [psqlText, hfirst, hoptions, hlast]
  simp only [List.append_assoc, List.cons_append, List.nil_append]

/-- The words in front of the last one, once the connection string `s` was
read. -/
def psqlOptions (s : Bytes) : List Shell.Token :=
  [.word (ascii "psql"), .word s, .word (ascii "-t"), .word (ascii "-c")]

theorem read_options (s : Bytes) :
    (Shell.Lexer.quote ⟨.unquoted, none, [.word (ascii "psql")]⟩ s).read (ascii " -t -c ") =
      some ⟨.unquoted, none, psqlOptions s⟩ := by
  have hbytes : ascii " -t -c " = [32, 45, 116, 32, 45, 99, 32] := by decide
  rw [hbytes]
  rfl

/-- The redirection is no argument. -/
theorem read_redirection (s w : Bytes) :
    (Shell.Lexer.quote ⟨.unquoted, none, psqlOptions s⟩ w).read (ascii " 2>/dev/null") =
      some ⟨.unquoted, some (ascii "/dev/null", true),
        psqlOptions s ++ [.word w, .number (ascii "2"), .operator 62]⟩ := by
  have hbytes : ascii " 2>/dev/null" = [32, 50, 62, 47, 100, 101, 118, 47, 110, 117, 108, 108] := by
    decide
  rw [hbytes]
  rfl

/-- The arguments of psql. -/
theorem arguments_psqlText {connectionString : Bytes} (hconn : (39 : UInt8) ∉ connectionString)
    (sql : Bytes) :
    Shell.arguments (psqlText connectionString (quotedSql sql)) =
      some [ascii "psql", connectionString, ascii "-t", ascii "-c", readSql sql] := by
  have hname : Shell.Lexer.start.read (ascii "psql ") =
      some ⟨.unquoted, none, [.word (ascii "psql")]⟩ := by decide
  have hread : Shell.Lexer.start.read (psqlText connectionString (quotedSql sql)) =
      some ⟨.unquoted, some (ascii "/dev/null", true), psqlOptions connectionString ++
        [.word (readSql sql), .number (ascii "2"), .operator 62]⟩ := by
    rw [psqlText_eq, Shell.Lexer.read_append_of hname,
      Shell.Lexer.read_append_of (Shell.Lexer.read_quoted rfl hconn),
      Shell.Lexer.read_append_of (read_options connectionString), Shell.Lexer.read,
      Shell.Lexer.step_open rfl, Option.bind_some,
      Shell.Lexer.read_append_of (read_quotedSql rfl [] sql), Shell.Lexer.read,
      Shell.Lexer.step_close rfl, Option.bind_some, List.nil_append, read_redirection]
  rw [Shell.arguments_of_read hread rfl]
  rfl

theorem readSql_eq_self_iff {sql : Bytes} :
    readSql sql = sql ↔ (39 : UInt8) ∉ sql ∧ (10 : UInt8) ∉ sql := by
  have hnone {b : UInt8} (hb : b = 39 ∨ b = 10) (c : UInt8) : b ∉ readByte c := by
    unfold readByte
    split_ifs with hquote hnewline
    · exact List.not_mem_nil
    · rcases hb with rfl | rfl
      · decide
      · decide
    · rw [List.mem_singleton]
      rintro rfl
      exact hb.elim hquote hnewline
  constructor
  · intro h
    have hread {b : UInt8} (hb : b = 39 ∨ b = 10) : b ∉ sql := by
      intro hmem
      rw [← h] at hmem
      obtain ⟨c, -, hc⟩ := List.mem_flatMap.mp hmem
      exact hnone hb c hc
    exact ⟨hread (.inl rfl), hread (.inr rfl)⟩
  · rintro ⟨hquote, hnewline⟩
    rw [readSql]
    have hbyte : ∀ c ∈ sql, readByte c = [c] := by
      intro c hc
      have hne : c ≠ 39 ∧ c ≠ 10 := ⟨fun h ↦ hquote (h ▸ hc), fun h ↦ hnewline (h ▸ hc)⟩
      rw [readByte, if_neg hne.1, if_neg hne.2]
    rw [List.flatMap_congr hbyte, List.flatMap_singleton']

/-! ## The query as an argument -/

/-- One command is run, and it hands the query to psql as it is. -/
def PassesSql (connectionString sql : Bytes) (calls : List PsqlCall) : Prop :=
  ∃ cmd, calls = [.popen cmd] ∧ Shell.arguments cmd =
    some [ascii "psql", connectionString, ascii "-t", ascii "-c", sql]

/-- Query and command are not cut. -/
structure FitsCommand (connectionString sql : Bytes) : Prop where
  quoted : (quotedSql sql).length < 4096
  command : (psqlText connectionString (quotedSql sql)).length < 8192

theorem runPsqlQuery_calls (connectionString : Option Bytes) (sql : Bytes) (outputSize : ℕ)
    (env : Env PsqlCall PsqlCall.Reply) :
    ((runPsqlQuery connectionString sql outputSize).run env []).1 =
      [.popen (CString.cut psqlCommandSize (psqlText (connectionString.getD [])
        (escapeSql (escapedSqlSize - 1) sql)))] := by
  rw [runPsqlQuery, Prog.run_perform_bind]
  split <;> rfl

theorem passesSql_runPsqlQuery_iff {connectionString : Option Bytes} {sql : Bytes}
    (hconn : (39 : UInt8) ∉ connectionString.getD [])
    (hfits : FitsCommand (connectionString.getD []) sql) (outputSize : ℕ)
    (env : Env PsqlCall PsqlCall.Reply) :
    PassesSql (connectionString.getD []) sql
        ((runPsqlQuery connectionString sql outputSize).run env []).1 ↔
      (39 : UInt8) ∉ sql ∧ (10 : UInt8) ∉ sql := by
  have hescaped : escapeSql (escapedSqlSize - 1) sql = quotedSql sql :=
    escapeSql_eq (Nat.le_of_lt_succ hfits.quoted)
  have hcmd : CString.cut psqlCommandSize (psqlText (connectionString.getD []) (quotedSql sql)) =
      psqlText (connectionString.getD []) (quotedSql sql) := CString.cut_of_lt hfits.command
  rw [runPsqlQuery_calls, hescaped, hcmd, ← readSql_eq_self_iff]
  constructor
  · rintro ⟨cmd, hcmd, hargs⟩
    obtain rfl := PsqlCall.popen.inj (List.cons.inj hcmd).1
    rw [arguments_psqlText hconn] at hargs
    simpa using hargs
  · exact fun hsame ↦ ⟨_, rfl, by rw [arguments_psqlText hconn, hsame]⟩

/-- A query reaches psql as it is unless it contains a single quote or a
newline. -/
theorem sql_reaches_psql_iff (connectionString : Option Bytes) (sql : Bytes) (outputSize : ℕ)
    (env : Env PsqlCall PsqlCall.Reply) (hconn : (39 : UInt8) ∉ connectionString.getD [])
    (hquoted : (quotedSql sql).length < 4096)
    (hcommand : (psqlText (connectionString.getD []) (quotedSql sql)).length < 8192) :
    PassesSql (connectionString.getD []) sql
        ((runPsqlQuery connectionString sql outputSize).run env []).1 ↔
      (39 : UInt8) ∉ sql ∧ (10 : UInt8) ∉ sql :=
  passesSql_runPsqlQuery_iff hconn ⟨hquoted, hcommand⟩ outputSize env

theorem sql_reaches_psql_iff_select :
    (39 : UInt8) ∉ (some (ascii "host=db")).getD [] ∧
      (quotedSql (ascii "SELECT 1")).length < 4096 ∧
      (psqlText (ascii "host=db") (quotedSql (ascii "SELECT 1"))).length < 8192 ∧
      (PassesSql (ascii "host=db") (ascii "SELECT 1")
          ((runPsqlQuery (some (ascii "host=db")) (ascii "SELECT 1") 256).run
            (fun _ _ ↦ none) []).1 ↔
        (39 : UInt8) ∉ ascii "SELECT 1" ∧ (10 : UInt8) ∉ ascii "SELECT 1") :=
  ⟨by decide, by decide, by decide,
    sql_reaches_psql_iff _ _ _ _ (by decide) (by decide) (by decide)⟩

/-- A string constant loses its quotes. -/
theorem sql_does_not_reach_psql :
    ¬ ∀ (connectionString : Option Bytes) (sql : Bytes) (outputSize : ℕ)
      (env : Env PsqlCall PsqlCall.Reply), (0 : UInt8) ∉ sql →
      (39 : UInt8) ∉ connectionString.getD [] → (quotedSql sql).length < 4096 →
      (psqlText (connectionString.getD []) (quotedSql sql)).length < 8192 →
      PassesSql (connectionString.getD []) sql
        ((runPsqlQuery connectionString sql outputSize).run env []).1 := by
  intro h
  have hpasses := h (some (ascii "host=db")) (ascii "SELECT 'x'") 256 (fun _ _ ↦ none) (by decide)
    (by decide) (by decide) (by decide)
  have hquote := (passesSql_runPsqlQuery_iff (by decide) ⟨by decide, by decide⟩ _ _).mp hpasses
  exact absurd hquote.1 (by decide)

/-- What is stored never reaches psql as it is. -/
theorem not_passesSql_memoryPostgresStore {mem : Memory} (item : MemoryItem)
    (hconn : (39 : UInt8) ∉ mem.connectionString)
    (hfits : FitsCommand mem.connectionString item.insertSql)
    (env : Env PsqlCall PsqlCall.Reply) :
    ¬ PassesSql mem.connectionString item.insertSql
      ((memoryPostgresStore mem item).run env []).1 := by
  have hquote : (39 : UInt8) ∈ item.insertSql := by
    rw [MemoryItem.insertSql, CString.cut, List.take_append]
    exact List.mem_append_left _ (by decide)
  rw [memoryPostgresStore]
  split_ifs with hinit
  · intro hpasses
    have hquery : PassesSql mem.connectionString item.insertSql
        ((runPsqlQuery (some mem.connectionString) item.insertSql 256).run env []).1 := by
      rw [← Prog.run_bind_ret_calls env [] _ Prod.fst]
      exact hpasses
    have hiff := passesSql_runPsqlQuery_iff (show (39 : UInt8) ∉ (some mem.connectionString).getD []
      from hconn) hfits 256 env
    exact (hiff.mp hquery).1 hquote
  · rintro ⟨cmd, hcmd, -⟩
    cases hcmd

end DoctorClaw
