import DoctorClaw.Lib.Decimal
import DoctorClaw.Lib.Run
import Mathlib.Data.List.Chain

/-!
# The audit log

`security_audit_log` keeps the last 1000 entries.  Each entry stores the hash
of the entry before it and a hash of its own texts behind that one, so that a
change of an old entry shows in every later link.

The links hold over every sequence of calls.  What is hashed, though, is the
fields run together without separators and without the user, so that texts
moved from one field to its neighbour leave the hash as it was.
-/

namespace DoctorClaw

open Transition

/-! ## Entries -/

structure AuditEntry where
  action : Bytes
  target : Bytes
  user : Bytes
  timestamp : UInt64
  allowed : Bool
  previousHash : Bytes
  currentHash : Bytes
  action_lt : action.length < 64
  target_lt : target.length < 256
  user_lt : user.length < 64
  previousHash_lt : previousHash.length < 17

def chainHash (data : Bytes) : UInt64 :=
  let h := data.foldl (fun (h : UInt64) c ↦ (h ^^^ c.toUInt64) * 0x01000193) 0x811c9dc5
  let h2 := data.foldl (fun (h2 : UInt64) c ↦
    let sum := h2 + c.toUInt64
    sum * (31 : UInt64) + sum >>> (32 : UInt64)) 0x01000193
  h <<< (32 : UInt64) ||| (h2 &&& 0xffffffff)

/-- The format `%016llx`. -/
def printHash (h : UInt64) : Bytes :=
  let digits := Decimal.printHex h.toNat
  List.replicate (16 - digits.length) 48 ++ digits

/-- What is printed into `payload`, before it is cut. -/
def auditPayload (previousHash action target : Bytes) (timestamp : UInt64) (allowed : Bool) :
    Bytes :=
  previousHash ++ action ++ target ++ Decimal.printNat timestamp.toNat ++
    Decimal.printNat (if allowed then 1 else 0)

def payloadSize : ℕ := 512

def AuditEntry.payload (e : AuditEntry) : Bytes :=
  auditPayload e.previousHash e.action e.target e.timestamp e.allowed

/-- The entry written for texts of any length. -/
def AuditEntry.make (previousHash action target : Bytes) (allowed : Bool) (now : UInt64) :
    AuditEntry where
  action := CString.cut 64 action
  target := CString.cut 256 target
  user := CString.cut 64 (ascii "doctorclaw")
  timestamp := now
  allowed := allowed
  previousHash := CString.cut 17 previousHash
  currentHash := CString.cut 17 (printHash (chainHash (CString.cut payloadSize (auditPayload
    (CString.cut 17 previousHash) (CString.cut 64 action) (CString.cut 256 target) now allowed))))
  action_lt := CString.length_cut_lt (by decide) _
  target_lt := CString.length_cut_lt (by decide) _
  user_lt := CString.length_cut_lt (by decide) _
  previousHash_lt := CString.length_cut_lt (by decide) _

def maxAuditEntries : ℕ := 1000

/-- A full log loses its oldest entry. -/
def auditRoom (log : List AuditEntry) : List AuditEntry :=
  if maxAuditEntries ≤ log.length then (log.take maxAuditEntries).tail else log

/-- The `g_audit_count` entries of `g_audit_log` after a call, and its return
value.  A missing target is the empty text. -/
def securityAuditLog (log : List AuditEntry) (action target : Option Bytes) (allowed : Bool)
    (now : UInt64) : List AuditEntry × ℤ :=
  match action with
  | none => (log, -1)
  | some action =>
      let log := auditRoom log
      let previousHash := (log.getLast?.map AuditEntry.currentHash).getD [48]
      (log ++ [.make previousHash action (target.getD []) allowed now], 0)

inductive AuditEvent
  | log (action target : Option Bytes) (allowed : Bool) (now : UInt64)
  | clear

def AuditStep (log : List AuditEntry) : AuditEvent → List AuditEntry → Prop
  | .log action target allowed now, log' => (securityAuditLog log action target allowed now).1 = log'
  | .clear, log' => log' = []

/-! ## The chain -/

theorem length_printHash (h : UInt64) : (printHash h).length = 16 := by
  have hlt : h.toNat < 16 ^ 16 := h.toNat_lt
  have hle : (Decimal.printHex h.toNat).length ≤ 16 := by
    rw [Decimal.printHex, List.length_map]
    exact (Nat.length_toDigits_le_iff (by omega) (by omega)).mpr hlt
  rw [printHash, List.length_append, List.length_replicate]
  omega

theorem AuditEntry.payload_eq (e : AuditEntry) :
    e.payload = e.previousHash ++ e.action ++ e.target ++ Decimal.printNat e.timestamp.toNat ++
      [if e.allowed then 49 else 48] := by
  unfold payload auditPayload
  cases e.allowed <;> rfl

theorem AuditEntry.length_payload_lt (e : AuditEntry) : e.payload.length < payloadSize := by
  have haction := e.action_lt
  have htarget := e.target_lt
  have hprevious := e.previousHash_lt
  have htime : (Decimal.printNat e.timestamp.toNat).length ≤ 20 := by
    apply Decimal.length_printNat_le (by omega)
    have := e.timestamp.toNat_lt
    omega
  simp only [e.payload_eq, List.length_append, List.length_singleton, payloadSize]
  omega

/-- The hash is the one of the whole payload. -/
def AuditEntry.Hashed (e : AuditEntry) : Prop :=
  e.currentHash = printHash (chainHash e.payload)

theorem AuditEntry.make_hashed (previousHash action target : Bytes) (allowed : Bool)
    (now : UInt64) : (make previousHash action target allowed now).Hashed := by
  have hpayload := (make previousHash action target allowed now).length_payload_lt
  have hhash : CString.cut 17
      (printHash (chainHash (make previousHash action target allowed now).payload)) =
        printHash (chainHash (make previousHash action target allowed now).payload) :=
    CString.cut_of_lt (by simp [length_printHash])
  rw [Hashed, ← hhash, ← CString.cut_of_lt hpayload]
  rfl

theorem AuditEntry.Hashed.length_currentHash {e : AuditEntry} (h : e.Hashed) :
    e.currentHash.length = 16 := by
  rw [h, length_printHash]

structure AuditInv (log : List AuditEntry) : Prop where
  length_le : log.length ≤ maxAuditEntries
  linked : log.IsChain fun e e' ↦ e'.previousHash = e.currentHash
  hashed : ∀ e ∈ log, e.Hashed

theorem AuditInv.nil : AuditInv [] where
  length_le := Nat.zero_le _
  linked := .nil
  hashed := by simp

theorem AuditInv.append {log : List AuditEntry} (h : AuditInv log) {e : AuditEntry}
    (hroom : log.length < maxAuditEntries) (hhash : e.Hashed)
    (hlink : ∀ last ∈ log.getLast?, e.previousHash = last.currentHash) :
    AuditInv (log ++ [e]) where
  length_le := by
    rw [List.length_append, List.length_singleton]
    exact hroom
  linked := by
    refine List.isChain_append.mpr ⟨h.linked, .singleton e, ?_⟩
    intro last hlast e' he'
    obtain rfl : e = e' := by simpa using he'
    exact hlink last hlast
  hashed := by
    intro e' he'
    rcases List.mem_append.mp he' with he' | he'
    · exact h.hashed e' he'
    · rw [List.mem_singleton] at he'
      exact he' ▸ hhash

theorem AuditInv.tail {log : List AuditEntry} (h : AuditInv log) : AuditInv log.tail where
  length_le := log.tail_sublist.length_le.trans h.length_le
  linked := h.linked.tail
  hashed := fun e he ↦ h.hashed e (List.mem_of_mem_tail he)

theorem AuditInv.auditRoom {log : List AuditEntry} (h : AuditInv log) :
    AuditInv (auditRoom log) ∧ (auditRoom log).length < maxAuditEntries := by
  unfold DoctorClaw.auditRoom
  split_ifs with hfull
  · rw [List.take_of_length_le h.length_le]
    refine ⟨h.tail, ?_⟩
    have hle := h.length_le
    rw [List.length_tail]
    unfold maxAuditEntries at *
    omega
  · exact ⟨h, not_le.mp hfull⟩

theorem AuditInv.step {log log' : List AuditEntry} {ev : AuditEvent} (h : AuditInv log)
    (hstep : AuditStep log ev log') : AuditInv log' := by
  cases ev with
  | clear =>
      obtain rfl : log' = [] := hstep
      exact .nil
  | log action target allowed now =>
      obtain rfl : (securityAuditLog log action target allowed now).1 = log' := hstep
      cases action with
      | none => exact h
      | some action =>
          obtain ⟨hkept, hroom⟩ := h.auditRoom
          refine hkept.append hroom (AuditEntry.make_hashed ..) ?_
          intro last hlast
          have hlen := (hkept.hashed last (List.mem_of_getLast? hlast)).length_currentHash
          simp only [AuditEntry.make, Option.mem_def.mp hlast, Option.map_some, Option.getD_some]
          exact CString.cut_of_lt (by omega)

/-- Over every sequence of calls the kept entries form a chain, each one
hashing all of its own payload behind the hash of the entry before it. -/
theorem auditLog_chain {evs : List AuditEvent} {log : List AuditEntry}
    (hrun : Run AuditStep [] evs log) :
    log.length ≤ 1000 ∧
      (∀ i (hi : i + 1 < log.length), log[i + 1].previousHash = log[i].currentHash) ∧
      ∀ e ∈ log,
        e.currentHash = printHash (chainHash (e.previousHash ++ e.action ++ e.target ++
          Decimal.printNat e.timestamp.toNat ++ [if e.allowed then 49 else 48])) ∧
        e.currentHash.length = 16 ∧
        (e.previousHash ++ e.action ++ e.target ++ Decimal.printNat e.timestamp.toNat ++
          [if e.allowed then 49 else 48]).length < 512 := by
  have hinv : AuditInv log := hrun.invariant .nil fun _ _ _ ↦ AuditInv.step
  refine ⟨hinv.length_le, fun i hi ↦ List.isChain_iff_getElem.mp hinv.linked i hi, ?_⟩
  intro e he
  rw [← e.payload_eq]
  exact ⟨hinv.hashed e he, (hinv.hashed e he).length_currentHash, e.length_payload_lt⟩

theorem auditLog_chain_two_calls :
    ∃ e e', Run AuditStep [] [.log (some (ascii "exec")) (some (ascii "ls")) true 5,
      .log (some (ascii "read")) none false 6] [e, e'] ∧ e'.previousHash = e.currentHash := by
  have hfirst : Run AuditStep [] [.log (some (ascii "exec")) (some (ascii "ls")) true 5] _ :=
    Run.nil.snoc rfl
  have hsecond : Run AuditStep [] [.log (some (ascii "exec")) (some (ascii "ls")) true 5,
      .log (some (ascii "read")) none false 6] _ := hfirst.snoc rfl
  exact ⟨_, _, hsecond, (auditLog_chain hsecond).2.1 0 (by decide)⟩

/-! ## What the hash covers -/

/-- What `chain_hash` is given for the two entries differs as soon as one of
their recorded facts does. -/
def TamperEvident (e e' : AuditEntry) : Prop :=
  e.action ≠ e'.action ∨ e.target ≠ e'.target ∨ e.user ≠ e'.user ∨ e.timestamp ≠ e'.timestamp ∨
      e.allowed ≠ e'.allowed →
    CString.cut payloadSize e.payload ≠ CString.cut payloadSize e'.payload

/-- The first digits of the timestamp of `e` are the last ones of the texts of
`e'`, which are those of `e` otherwise. -/
def DigitsMoved (e e' : AuditEntry) : Prop :=
  ∃ q, q ≠ 0 ∧
    e.timestamp.toNat = q * 10 ^ (Decimal.printNat e'.timestamp.toNat).length +
      e'.timestamp.toNat ∧
    e'.action ++ e'.target = e.action ++ e.target ++ Decimal.printNat q

/-- The facts of one entry, the user left out, are those of the other with
the borders between the fields moved. -/
def Resplit (e e' : AuditEntry) : Prop :=
  e.allowed = e'.allowed ∧
    (e.timestamp = e'.timestamp ∧ e.action ++ e.target = e'.action ++ e'.target ∨
      DigitsMoved e e' ∨ DigitsMoved e' e)

theorem payload_eq_iff {e e' : AuditEntry} (hprevious : e.previousHash = e'.previousHash) :
    e.payload = e'.payload ↔ Resplit e e' := by
  have hflag : [if e.allowed then (49 : UInt8) else 48] = [if e'.allowed then 49 else 48] ↔
      e.allowed = e'.allowed := by
    cases e.allowed <;> cases e'.allowed <;> decide
  have hpayload : e.payload = e'.payload ↔ e.allowed = e'.allowed ∧
      e.action ++ e.target ++ Decimal.printNat e.timestamp.toNat =
        e'.action ++ e'.target ++ Decimal.printNat e'.timestamp.toNat := by
    rw [e.payload_eq, e'.payload_eq, hprevious, ← hflag]
    simp only [List.append_assoc, List.append_cancel_left_eq]
    simp only [← List.append_assoc]
    refine ⟨fun h ↦ (List.append_inj' h rfl).symm, ?_⟩
    rintro ⟨hdigit, htexts⟩
    rw [hdigit, htexts]
  rw [hpayload, Decimal.append_printNat_eq_iff, UInt64.toNat_inj]
  rfl

/-- The links cover the facts of an entry exactly as far as moving texts and
digits over the borders of the fields, or changing the user, is not at work. -/
theorem tamperEvident_iff {e e' : AuditEntry} (hprevious : e.previousHash = e'.previousHash) :
    TamperEvident e e' ↔
      (Resplit e e' → e.action = e'.action ∧ e.target = e'.target ∧ e.user = e'.user ∧
        e.timestamp = e'.timestamp ∧ e.allowed = e'.allowed) := by
  rw [TamperEvident, CString.cut_of_lt e.length_payload_lt, CString.cut_of_lt e'.length_payload_lt,
    ne_eq (a := e.payload), payload_eq_iff hprevious]
  tauto

theorem tamperEvident_iff_other_flag :
    ¬ Resplit (.make [48] (ascii "rm") (ascii "/a") true 7)
        (.make [48] (ascii "rm") (ascii "/a") false 7) ∧
      TamperEvident (.make [48] (ascii "rm") (ascii "/a") true 7)
        (.make [48] (ascii "rm") (ascii "/a") false 7) := by
  have hnot : ¬ Resplit (.make [48] (ascii "rm") (ascii "/a") true 7)
      (.make [48] (ascii "rm") (ascii "/a") false 7) := fun h ↦ Bool.noConfusion h.1
  refine ⟨hnot, (tamperEvident_iff ?_).mpr fun h ↦ absurd h hnot⟩
  rfl

/-- Two calls on an empty log at the same second, for the action `ab` on
nothing and for the action `a` on `b`. -/
theorem not_tamperEvident_moved_border :
    ∃ e e', securityAuditLog [] (some (ascii "ab")) none true 0 = ([e], 0) ∧
      securityAuditLog [] (some (ascii "a")) (some (ascii "b")) true 0 = ([e'], 0) ∧
      e.previousHash = e'.previousHash ∧ ¬ TamperEvident e e' := by
  refine ⟨_, _, rfl, rfl, rfl, fun h ↦ h (.inl ?_) ?_⟩
  · decide
  · decide

end DoctorClaw
