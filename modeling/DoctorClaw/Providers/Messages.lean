import DoctorClaw.ChatContext
import DoctorClaw.Lib.BufferWriter
import DoctorClaw.Lib.Escape

/-!
# The messages of a request

`build_messages_json` writes the messages of a chat context into a buffer of
the caller.  Where the buffer is large enough the messages can be read back.

Where it is not, a message is cut in its content and closed, but only if a whole
number of encoded bytes leaves room for exactly the closing two.  If an escape
misses that place, or the buffer ends inside the front of a message, the space
counter wraps around and the rest is written behind the buffer.
-/

namespace DoctorClaw

open BufferWriter

/-! ## The encoder -/

/-- The letter behind the backslash, for the bytes that are escaped. -/
def escapeLetter (c : UInt8) : Option UInt8 :=
  if c = 34 then some 34 else if c = 92 then some 92 else if c = 10 then some 110 else none

def writeByte (w : Writer) (c : UInt8) : Writer :=
  match escapeLetter c with
  | some e => if 2 ≤ w.remaining then w.put [92, e] else w
  | none => w.put [c]

def writeContent : Writer → Bytes → Writer
  | w, [] => w
  | w, c :: content => if 2 < w.remaining then writeContent (writeByte w c) content else w

def messageFront (m : Message) : Bytes :=
  ascii "\x7b\"role\":\"" ++ m.role ++ ascii "\",\"content\":\""

def messageEnd : Bytes := ascii "\"\x7d"

def writeComma (first : Bool) (w : Writer) : Writer := if first then w else w.snprintf [44]

def writeFront (first : Bool) (w : Writer) (m : Message) : Writer :=
  (writeComma first w).snprintf (messageFront m)

def writeMessage (first : Bool) (w : Writer) (m : Message) : Writer :=
  (writeContent (writeFront first w m) m.content).snprintf messageEnd

def writeMessages : Bool → Writer → List Message → Writer
  | _, w, [] => w
  | first, w, m :: ms =>
      if 0 < w.remaining then writeMessages false (writeMessage first w m) ms else w

/-- `out_json` is the buffer, and `out_len` its length. -/
def buildMessagesJson (ctx : ChatContext) (outJson : Bytes) : Writer :=
  writeMessages true (.start outJson) ctx.messages

/-! ## The encoding -/

def messageJson (m : Message) : Bytes :=
  messageFront m ++ (Escape.escape escapeLetter m.content ++ messageEnd)

def separator (first : Bool) : Bytes := if first then [] else [44]

def encodeMessages : Bool → List Message → Bytes
  | _, [] => []
  | first, m :: ms => separator first ++ (messageJson m ++ encodeMessages false ms)

/-- The full encoding, with a comma between the messages. -/
def messagesJson (ms : List Message) : Bytes := encodeMessages true ms

/-- What `message_t` can hold. -/
structure Message.Stored (m : Message) : Prop where
  role_lt : m.role.length < 16
  content_lt : m.content.length < 8192
  role_nul : (0 : UInt8) ∉ m.role
  content_nul : (0 : UInt8) ∉ m.content

theorem chatContextAddMessage_stored {ctx : ChatContext} (hctx : ∀ m ∈ ctx.messages, m.Stored)
    {role content : Bytes} (hrole : (0 : UInt8) ∉ role) (hcontent : (0 : UInt8) ∉ content) :
    ∀ m ∈ (chatContextAddMessage ctx role content).messages, m.Stored := by
  intro m hm
  rcases List.mem_append.mp hm with hm | hm
  · exact hctx m hm
  · rw [List.mem_singleton.mp hm]
    exact ⟨CString.length_cut_lt (by decide) role, CString.length_cut_lt (by decide) content,
      fun h ↦ hrole (List.mem_of_mem_take h), fun h ↦ hcontent (List.mem_of_mem_take h)⟩

/-! ## Reading the messages back -/

def undoLetter (e : UInt8) : Option UInt8 :=
  if e = 34 then some 34 else if e = 92 then some 92 else if e = 110 then some 10 else none

/-- The text behind the given start. -/
def after (start s : Bytes) : Option Bytes :=
  if start <+: s then some (s.drop start.length) else none

def readMessage (s : Bytes) : Option (Message × Bytes) :=
  (after (ascii "\x7b\"role\":\"") s).bind fun s ↦
    (after (ascii "\",\"content\":\"") (s.dropWhile (· ≠ 34))).bind fun rest ↦
      (Escape.readQuoted undoLetter rest).bind fun p ↦
        (after (ascii "\x7d") p.2).map fun rest ↦ (⟨s.takeWhile (· ≠ 34), p.1⟩, rest)

/-- The messages of a sequence with commas between them. -/
def readMessages : ℕ → Bytes → Option (List Message)
  | 0, _ => none
  | fuel + 1, s =>
      (readMessage s).bind fun p ↦
        match p.2 with
        | [] => some [p.1]
        | c :: rest => if c = 44 then (readMessages fuel rest).map (p.1 :: ·) else none

theorem after_append (start s : Bytes) : after start (start ++ s) = some s := by
  rw [after, if_pos (List.prefix_append _ _), List.drop_left]

theorem undoLetter_escapeLetter (c e : UInt8) (h : escapeLetter c = some e) :
    undoLetter e = some c := by
  unfold escapeLetter at h
  split_ifs at h with h34 h92 h10 <;> cases h
  · rw [h34]; rfl
  · rw [h92]; rfl
  · rw [h10]; rfl

theorem readMessage_messageJson {m : Message} (hrole : (34 : UInt8) ∉ m.role) (rest : Bytes) :
    readMessage (messageJson m ++ rest) = some (m, rest) := by
  have htext : messageJson m ++ rest = ascii "\x7b\"role\":\"" ++ (m.role ++ 34 ::
      (ascii ",\"content\":\"" ++
        (Escape.escape escapeLetter m.content ++ 34 :: (ascii "\x7d" ++ rest)))) := by
    simp only [messageJson, messageFront, messageEnd, List.append_assoc]
    rfl
  rw [readMessage, htext, after_append, Option.bind_some, CString.dropWhile_ne_append hrole,
    CString.takeWhile_ne_append hrole]
  have hfront (s : Bytes) :
      after (ascii "\",\"content\":\"") (34 :: (ascii ",\"content\":\"" ++ s)) = some s :=
    after_append (ascii "\",\"content\":\"") s
  rw [hfront, Option.bind_some,
    Escape.readQuoted_escape undoLetter_escapeLetter (by decide) (by decide), Option.bind_some,
    after_append, Option.map_some]

theorem readMessages_messagesJson {ms : List Message} (hne : ms ≠ [])
    (hroles : ∀ m ∈ ms, (34 : UInt8) ∉ m.role) {fuel : ℕ} (hfuel : ms.length ≤ fuel) :
    readMessages fuel (messagesJson ms) = some ms := by
  induction ms generalizing fuel with
  | nil => exact absurd rfl hne
  | cons m ms ih =>
      rw [List.forall_mem_cons] at hroles
      obtain ⟨fuel, rfl⟩ : ∃ k, fuel = k + 1 := Nat.exists_eq_add_one.mpr (by
        rw [List.length_cons] at hfuel
        omega)
      have hmessage : readMessage (messagesJson (m :: ms)) = some (m, encodeMessages false ms) :=
        readMessage_messageJson hroles.1 _
      rw [readMessages, hmessage, Option.bind_some]
      cases ms with
      | nil => rfl
      | cons m' ms =>
          have hrest := ih (List.cons_ne_nil _ _) hroles.2 (Nat.le_of_succ_le_succ hfuel)
          have hcomma : encodeMessages false (m' :: ms) = 44 :: messagesJson (m' :: ms) := rfl
          simp only [hcomma, if_true, hrest, Option.map_some]

/-! ## A buffer that is large enough -/

theorem writeByte_eq {w : Writer} (h : 2 < w.remaining) (c : UInt8) :
    writeByte w c = w.put (Escape.escapeByte escapeLetter c) := by
  unfold writeByte Escape.escapeByte
  cases escapeLetter c with
  | some e => exact if_pos (Nat.le_of_lt h)
  | none => rfl

theorem writeContent_cons {w : Writer} (h : 2 < w.remaining) (c : UInt8) (content : Bytes) :
    writeContent w (c :: content) =
      writeContent (w.put (Escape.escapeByte escapeLetter c)) content := by
  rw [writeContent, if_pos h, writeByte_eq h]

theorem writeContent_of_le {w : Writer} (h : w.remaining ≤ 2) (content : Bytes) :
    writeContent w content = w := by
  cases content with
  | nil => rfl
  | cons c content => rw [writeContent, if_neg (Nat.not_lt.mpr h)]

section Fits

variable {n : ℕ} {w : Writer}

theorem writeContent_sound (hw : w.Sound n) (content : Bytes) :
    (writeContent w content).Sound n := by
  induction content generalizing w with
  | nil => exact hw
  | cons c content ih =>
      by_cases h : 2 < w.remaining
      · rw [writeContent_cons h]
        have hbyte := Escape.length_escapeByte escapeLetter c
        exact ih (hw.put (by omega))
      · rwa [writeContent_of_le (Nat.not_lt.mp h)]

/-- A content that fits is written whole. -/
theorem writeContent_remaining (content : Bytes)
    (h : (Escape.escape escapeLetter content).length + 2 ≤ w.remaining) :
    (writeContent w content).remaining =
      w.remaining - (Escape.escape escapeLetter content).length := by
  induction content generalizing w with
  | nil => rfl
  | cons c content ih =>
      have hbyte := Escape.length_escapeByte escapeLetter c
      rw [Escape.escape_cons, List.length_append] at h ⊢
      have hput := Writer.put_remaining (w := w) (s := Escape.escapeByte escapeLetter c) (by omega)
      rw [writeContent_cons (by omega), ih (by omega), hput]
      omega

theorem writeContent_holds (content : Bytes) {text : Bytes} (hw : w.Sound n) (ht : w.Holds text)
    (h : (Escape.escape escapeLetter content).length + 2 ≤ w.remaining) :
    (writeContent w content).Holds (text ++ Escape.escape escapeLetter content) := by
  induction content generalizing w text with
  | nil => simpa [writeContent, Escape.escape] using ht
  | cons c content ih =>
      have hbyte := Escape.length_escapeByte escapeLetter c
      rw [Escape.escape_cons, List.length_append] at h
      have hput := Writer.put_remaining (w := w) (s := Escape.escapeByte escapeLetter c) (by omega)
      rw [writeContent_cons (by omega), Escape.escape_cons, ← List.append_assoc]
      exact ih (hw.put (by omega)) (ht.put hw (by omega)) (by omega)

theorem writeComma_sound (first : Bool) (hw : w.Sound n)
    (h : (separator first).length ≤ w.remaining) : (writeComma first w).Sound n := by
  cases first with
  | true => exact hw
  | false => exact hw.snprintf h

theorem writeComma_remaining (first : Bool) (h : (separator first).length ≤ w.remaining) :
    (writeComma first w).remaining = w.remaining - (separator first).length := by
  cases first with
  | true => rfl
  | false => exact Writer.snprintf_remaining h

theorem writeComma_holds (first : Bool) {text : Bytes} (hw : w.Sound n) (ht : w.Holds text)
    (h : (separator first).length < w.remaining) :
    (writeComma first w).Holds (text ++ separator first) := by
  cases first with
  | true => rwa [separator, if_pos rfl, List.append_nil]
  | false => exact ht.snprintf hw h

theorem writeFront_sound (first : Bool) (m : Message) (hw : w.Sound n)
    (h : (separator first).length + (messageFront m).length ≤ w.remaining) :
    (writeFront first w m).Sound n := by
  have hcomma := writeComma_remaining (w := w) first (by omega)
  exact (writeComma_sound first hw (by omega)).snprintf (by omega)

theorem writeFront_remaining (first : Bool) (m : Message)
    (h : (separator first).length + (messageFront m).length ≤ w.remaining) :
    (writeFront first w m).remaining =
      w.remaining - ((separator first).length + (messageFront m).length) := by
  have hcomma := writeComma_remaining (w := w) first (by omega)
  rw [writeFront, Writer.snprintf_remaining (by omega), hcomma]
  omega

theorem length_messageJson (m : Message) :
    (messageJson m).length =
      (messageFront m).length + ((Escape.escape escapeLetter m.content).length + 2) := by
  simp only [messageJson, List.length_append]
  rfl

/-- A message that fits is written whole, with a terminator behind it. -/
theorem writeMessage_holds (first : Bool) (m : Message) {text : Bytes} (hw : w.Sound n)
    (ht : w.Holds text) (h : (separator first).length + (messageJson m).length < w.remaining) :
    (writeMessage first w m).Holds (text ++ separator first ++ messageJson m) ∧
      text ++ separator first ++ messageJson m ++ [0] <+: (writeMessage first w m).buffer := by
  rw [length_messageJson] at h
  have hcomma := writeComma_remaining (w := w) first (by omega)
  have hfront := writeFront_remaining (w := w) first m (by omega)
  have hsound := writeFront_sound first m hw (by omega)
  have hholds : (writeFront first w m).Holds (text ++ separator first ++ messageFront m) :=
    (writeComma_holds first hw ht (by omega)).snprintf (writeComma_sound first hw (by omega))
      (by omega)
  have hcontent := writeContent_holds m.content hsound hholds (by omega)
  have hleft := writeContent_remaining (w := writeFront first w m) m.content (by omega)
  have hend : messageEnd.length < (writeContent (writeFront first w m) m.content).remaining := by
    rw [show messageEnd.length = 2 from rfl]
    omega
  have htext : text ++ separator first ++ messageJson m =
      text ++ separator first ++ messageFront m ++ Escape.escape escapeLetter m.content ++
        messageEnd := by
    simp only [messageJson, List.append_assoc]
  rw [htext]
  exact ⟨hcontent.snprintf (writeContent_sound hsound _) hend,
    Writer.isPrefix_snprintf (writeContent_sound hsound _) hcontent hend⟩

/-- The message was written without harm. -/
theorem writeMessage_of_room (first : Bool) (m : Message) (hw : w.Sound n)
    (hfront : (separator first).length + (messageFront m).length ≤ w.remaining)
    (hroom : 2 ≤ (writeContent (writeFront first w m) m.content).remaining) :
    (writeMessage first w m).Sound n ∧ (0 : UInt8) ∈ (writeMessage first w m).buffer ∧
      (writeMessage first w m).remaining =
        (writeContent (writeFront first w m) m.content).remaining - 2 := by
  have hcontent := writeContent_sound (writeFront_sound first m hw hfront) m.content
  refine ⟨hcontent.snprintf hroom, ?_, Writer.snprintf_remaining hroom⟩
  exact Writer.zero_mem_snprintf hcontent (by omega) messageEnd

theorem writeMessage_of_fits (first : Bool) (m : Message) (hw : w.Sound n)
    (h : (separator first).length + (messageJson m).length ≤ w.remaining) :
    (writeMessage first w m).Sound n ∧ (0 : UInt8) ∈ (writeMessage first w m).buffer ∧
      (writeMessage first w m).remaining =
        w.remaining - ((separator first).length + (messageJson m).length) := by
  rw [length_messageJson] at h ⊢
  have hfront := writeFront_remaining (w := w) first m (by omega)
  have hleft := writeContent_remaining (w := writeFront first w m) m.content (by omega)
  obtain ⟨hsound, hzero, hremaining⟩ := writeMessage_of_room first m hw (by omega) (by omega)
  refine ⟨hsound, hzero, ?_⟩
  omega

end Fits

/-! ## Losing nothing -/

theorem writeMessages_holds {n : ℕ} {w : Writer} {text : Bytes} (first : Bool) (m : Message)
    (ms : List Message) (hw : w.Sound n) (ht : w.Holds text)
    (h : (encodeMessages first (m :: ms)).length < w.remaining) :
    text ++ encodeMessages first (m :: ms) ++ [0] <+: (writeMessages first w (m :: ms)).buffer := by
  induction ms generalizing w text first m with
  | nil =>
      simp only [encodeMessages, List.append_nil, List.length_append] at h ⊢
      rw [writeMessages, if_pos (by omega), writeMessages, ← List.append_assoc text]
      exact (writeMessage_holds first m hw ht h).2
  | cons m' ms ih =>
      rw [encodeMessages, List.length_append, List.length_append] at h
      obtain ⟨hsound, -, hremaining⟩ := writeMessage_of_fits first m hw (by omega)
      obtain ⟨hholds, -⟩ := writeMessage_holds first m hw ht (by omega)
      have hrest := ih false m' hsound hholds (by omega)
      have htext : text ++ encodeMessages first (m :: m' :: ms) =
          text ++ separator first ++ messageJson m ++ encodeMessages false (m' :: ms) := by
        simp only [encodeMessages, List.append_assoc]
      rw [writeMessages, if_pos (by omega), htext]
      exact hrest

theorem nul_notMem_escape {s : Bytes} (hs : (0 : UInt8) ∉ s) :
    (0 : UInt8) ∉ Escape.escape escapeLetter s := by
  refine Escape.notMem_escape (by decide) (fun b hb ↦ ?_) hs
  unfold escapeLetter at hb
  split_ifs at hb <;> cases hb

theorem nul_notMem_encodeMessages {first : Bool} {ms : List Message} (h : ∀ m ∈ ms, m.Stored) :
    (0 : UInt8) ∉ encodeMessages first ms := by
  induction ms generalizing first with
  | nil => exact List.not_mem_nil
  | cons m ms ih =>
      rw [List.forall_mem_cons] at h
      have hfront : (0 : UInt8) ∉ messageFront m := by
        simp only [messageFront, List.mem_append, not_or]
        exact ⟨⟨by decide, h.1.role_nul⟩, by decide⟩
      have hsep : (0 : UInt8) ∉ separator first := by cases first <;> decide
      simp only [encodeMessages, messageJson, List.mem_append, not_or]
      exact ⟨hsep, ⟨hfront, nul_notMem_escape h.1.content_nul, by decide⟩, ih h.2⟩

theorem length_le_encodeMessages (first : Bool) (ms : List Message) :
    ms.length ≤ (encodeMessages first ms).length := by
  induction ms generalizing first with
  | nil => exact Nat.zero_le _
  | cons m ms ih =>
      have hrest := ih false
      rw [encodeMessages, List.length_append, List.length_append, length_messageJson,
        List.length_cons]
      omega

/-- The messages in a text. -/
def decodeMessages (text : Bytes) : Option (List Message) := readMessages text.length text

/-- In a buffer with room for the encoding the messages are written so that they
can be read back. -/
theorem buildMessagesJson_lossless (ctx : ChatContext) (outJson : Bytes)
    (hstored : ∀ m ∈ ctx.messages, m.Stored) (hne : ctx.messages ≠ [])
    (hroles : ∀ m ∈ ctx.messages, (34 : UInt8) ∉ m.role ∧ (92 : UInt8) ∉ m.role)
    (hlen : (messagesJson ctx.messages).length < outJson.length) :
    messagesJson ctx.messages ++ [0] <+: (buildMessagesJson ctx outJson).buffer ∧
      decodeMessages (CString.ofBuffer (buildMessagesJson ctx outJson).buffer) =
        some ctx.messages := by
  obtain ⟨m, ms, hms⟩ := List.exists_cons_of_ne_nil hne
  have hwritten : messagesJson ctx.messages ++ [0] <+: (buildMessagesJson ctx outJson).buffer := by
    have hholds := writeMessages_holds true m ms (Writer.start_sound outJson)
      (Writer.start_holds outJson) (by rwa [hms] at hlen)
    rwa [← hms, List.nil_append] at hholds
  refine ⟨hwritten, ?_⟩
  obtain ⟨junk, hjunk⟩ := hwritten
  have htext :
      CString.ofBuffer (buildMessagesJson ctx outJson).buffer = messagesJson ctx.messages := by
    rw [← hjunk, List.append_assoc]
    exact CString.ofBuffer_append_zero (nul_notMem_encodeMessages hstored) junk
  rw [htext, decodeMessages]
  exact readMessages_messagesJson hne (fun m hm ↦ (hroles m hm).1)
    (length_le_encodeMessages true ctx.messages)

/-- A question and an answer, added one after the other. -/
def quotedContext : ChatContext :=
  chatContextAddMessage
    (chatContextAddMessage ⟨[], 32⟩ (ascii "user") (ascii "say \"hi\"\n\\")) (ascii "assistant")
    (ascii "hi")

theorem buildMessagesJson_lossless_quoted :
    decodeMessages (CString.ofBuffer
        (buildMessagesJson quotedContext (List.replicate 8192 1)).buffer) =
      some [⟨ascii "user", ascii "say \"hi\"\n\\"⟩, ⟨ascii "assistant", ascii "hi"⟩] := by
  refine (buildMessagesJson_lossless quotedContext _ ?_ (by decide) (by decide) ?_).2
  · refine chatContextAddMessage_stored ?_ (by decide) (by decide)
    exact chatContextAddMessage_stored (List.forall_mem_nil _) (by decide) (by decide)
  · rw [List.length_replicate]
    decide

/-! ## Staying in the buffer -/

/-- Nothing is stored outside, the counter does not wrap around, and there is a
terminator. -/
def StaysInBuffer (n : ℕ) (w : Writer) : Prop :=
  (∀ e ∈ w.log, e.InBounds n) ∧ (0 : UInt8) ∈ w.buffer

/-- Some messages are given, and their encoding is shorter than the buffer or,
cut inside the content of a message and closed there, ends exactly with it. -/
def FitsBuffer (ms : List Message) (n : ℕ) : Prop :=
  ms ≠ [] ∧ ((messagesJson ms).length < n ∨
    ∃ before m behind content, ms = before ++ m :: behind ∧ content <+: m.content ∧
      (messagesJson (before ++ [⟨m.role, content⟩])).length = n)

/-- The same for the messages from some point on. -/
def Room (first : Bool) (ms : List Message) (remaining : ℕ) : Prop :=
  (encodeMessages first ms).length < remaining ∨
    ∃ before m behind content, ms = before ++ m :: behind ∧ content <+: m.content ∧
      (encodeMessages first (before ++ [⟨m.role, content⟩])).length = remaining

theorem room_cons (first : Bool) (m : Message) (ms : List Message) (remaining : ℕ) :
    Room first (m :: ms) remaining ↔
      (∃ content, content <+: m.content ∧
        (separator first).length + (messageJson ⟨m.role, content⟩).length = remaining) ∨
      ((separator first).length + (messageJson m).length < remaining ∧
        Room false ms (remaining - ((separator first).length + (messageJson m).length))) := by
  constructor
  · rintro (hlen | ⟨before, m', behind, content, hms, hcut, hlen⟩)
    · rw [encodeMessages, List.length_append, List.length_append] at hlen
      exact .inr ⟨by omega, .inl (by omega)⟩
    · cases before with
      | nil =>
          rw [List.nil_append, List.cons.injEq] at hms
          refine .inl ⟨content, hms.1 ▸ hcut, ?_⟩
          simpa [encodeMessages, hms.1] using hlen
      | cons m'' before =>
          rw [List.cons_append, List.cons.injEq] at hms
          rw [List.cons_append, encodeMessages, List.length_append, List.length_append,
            ← hms.1] at hlen
          have hpos : 0 < (encodeMessages false (before ++ [⟨m'.role, content⟩])).length := by
            have hcount := length_le_encodeMessages false (before ++ [⟨m'.role, content⟩])
            rw [List.length_append, List.length_singleton] at hcount
            omega
          exact .inr ⟨by omega, .inr ⟨before, m', behind, content, hms.2, hcut, by omega⟩⟩
  · rintro (⟨content, hcut, hlen⟩ | ⟨hlen, hrest | ⟨before, m', behind, content, hms, hcut, hrest⟩⟩)
    · exact .inr ⟨[], m, ms, content, rfl, hcut, by simpa [encodeMessages] using hlen⟩
    · left
      rw [encodeMessages, List.length_append, List.length_append]
      omega
    · refine .inr ⟨m :: before, m', behind, content, by rw [hms, List.cons_append], hcut, ?_⟩
      rw [List.cons_append, encodeMessages, List.length_append, List.length_append]
      omega

section Bounds

variable {n : ℕ} {w : Writer}

theorem log_isPrefix_writeContent (w : Writer) (content : Bytes) :
    w.log <+: (writeContent w content).log := by
  induction content generalizing w with
  | nil => exact List.prefix_rfl
  | cons c content ih =>
      by_cases h : 2 < w.remaining
      · rw [writeContent_cons h]
        exact (Writer.log_isPrefix_put w _).trans (ih _)
      · rw [writeContent_of_le (Nat.not_lt.mp h)]

theorem log_isPrefix_writeComma (first : Bool) (w : Writer) :
    w.log <+: (writeComma first w).log := by
  cases first with
  | true => exact List.prefix_rfl
  | false => exact Writer.log_isPrefix_snprintf w [44]

theorem log_isPrefix_writeMessage (first : Bool) (w : Writer) (m : Message) :
    w.log <+: (writeMessage first w m).log :=
  ((log_isPrefix_writeComma first w).trans (Writer.log_isPrefix_snprintf _ _)).trans
    ((log_isPrefix_writeContent _ _).trans (Writer.log_isPrefix_snprintf _ _))

theorem log_isPrefix_writeMessages (first : Bool) (w : Writer) (ms : List Message) :
    w.log <+: (writeMessages first w ms).log := by
  induction ms generalizing first w with
  | nil => exact List.prefix_rfl
  | cons m ms ih =>
      rw [writeMessages]
      split_ifs
      · exact (log_isPrefix_writeMessage first w m).trans (ih false _)
      · exact List.prefix_rfl

/-- A content that is cut where two bytes are left leaves these. -/
theorem writeContent_of_cut {cut content : Bytes} (hcut : cut <+: content)
    (h : (Escape.escape escapeLetter cut).length + 2 = w.remaining) :
    (writeContent w content).remaining = 2 := by
  induction cut generalizing w content with
  | nil =>
      have htwo : w.remaining = 2 := h.symm
      rw [writeContent_of_le (Nat.le_of_eq htwo), htwo]
  | cons c cut ih =>
      obtain ⟨behind, rfl⟩ := hcut
      have hbyte := Escape.length_escapeByte escapeLetter c
      rw [Escape.escape_cons, List.length_append] at h
      have hput := Writer.put_remaining (w := w) (s := Escape.escapeByte escapeLetter c) (by omega)
      rw [List.cons_append, writeContent_cons (by omega)]
      exact ih (List.prefix_append _ _) (by omega)

theorem writeContent_cases {content : Bytes} (h : 2 ≤ (writeContent w content).remaining) :
    (Escape.escape escapeLetter content).length + 2 ≤ w.remaining ∨
      ∃ cut, cut <+: content ∧ (Escape.escape escapeLetter cut).length + 2 = w.remaining := by
  induction content generalizing w with
  | nil => exact .inl (by simpa [writeContent, Escape.escape] using h)
  | cons c content ih =>
      by_cases hroom : 2 < w.remaining
      · have hbyte := Escape.length_escapeByte escapeLetter c
        have hput :=
          Writer.put_remaining (w := w) (s := Escape.escapeByte escapeLetter c) (by omega)
        rw [writeContent_cons hroom] at h
        rcases ih h with hfits | ⟨cut, hcut, hlen⟩
        · left
          rw [Escape.escape_cons, List.length_append]
          omega
        · refine .inr ⟨c :: cut, List.cons_prefix_cons.mpr ⟨rfl, hcut⟩, ?_⟩
          rw [Escape.escape_cons, List.length_append]
          omega
      · rw [writeContent_of_le (Nat.not_lt.mp hroom)] at h
        refine .inr ⟨[], List.nil_prefix, ?_⟩
        rw [show Escape.escape escapeLetter [] = [] from rfl, List.length_nil]
        omega

theorem writeMessage_of_cut (first : Bool) (m : Message) {content : Bytes} (hw : w.Sound n)
    (hcut : content <+: m.content)
    (h : (separator first).length + (messageJson ⟨m.role, content⟩).length = w.remaining) :
    (writeMessage first w m).Sound n ∧ (0 : UInt8) ∈ (writeMessage first w m).buffer ∧
      (writeMessage first w m).remaining = 0 := by
  simp only [length_messageJson] at h
  rw [show messageFront ⟨m.role, content⟩ = messageFront m from rfl] at h
  have hfront := writeFront_remaining (w := w) first m (by omega)
  have htwo := writeContent_of_cut (w := writeFront first w m) hcut (by omega)
  obtain ⟨hsound, hzero, hremaining⟩ := writeMessage_of_room first m hw (by omega) (by omega)
  exact ⟨hsound, hzero, by omega⟩

/-- Without harm a message is written whole, or cut so that it ends with the
buffer. -/
theorem writeMessage_cases {first : Bool} {m : Message}
    (h : ∀ e ∈ (writeMessage first w m).log, e.InBounds n) :
    (separator first).length + (messageJson m).length ≤ w.remaining ∨
      ∃ content, content <+: m.content ∧
        (separator first).length + (messageJson ⟨m.role, content⟩).length = w.remaining := by
  have hend := Writer.length_le_of_snprintf h
  have hcontent : ∀ e ∈ (writeFront first w m).log, e.InBounds n := fun e he ↦
    h e (((log_isPrefix_writeContent _ _).trans (Writer.log_isPrefix_snprintf _ _)).subset he)
  have hfront := Writer.length_le_of_snprintf hcontent
  have hcomma : (separator first).length ≤ w.remaining := by
    cases first with
    | true => exact Nat.zero_le _
    | false =>
        refine Writer.length_le_of_snprintf (n := n) fun e he ↦ hcontent e ?_
        exact (Writer.log_isPrefix_snprintf _ _).subset he
  have hleft := writeComma_remaining first hcomma
  have hrest := writeFront_remaining (w := w) first m (by omega)
  simp only [length_messageJson]
  rcases writeContent_cases hend with hfits | ⟨cut, hcut, hlen⟩
  · exact .inl (by omega)
  · refine .inr ⟨cut, hcut, ?_⟩
    rw [show messageFront ⟨m.role, cut⟩ = messageFront m from rfl]
    omega

theorem writeMessages_inBounds_iff (first : Bool) (ms : List Message) (hw : w.Sound n)
    (hpos : 0 < w.remaining) :
    (∀ e ∈ (writeMessages first w ms).log, e.InBounds n) ↔ Room first ms w.remaining := by
  induction ms generalizing first w with
  | nil => exact iff_of_true hw.log (.inl hpos)
  | cons m ms ih =>
      rw [room_cons, writeMessages, if_pos hpos]
      have hstop {w : Writer} (hw : w.Sound n) (hzero : w.remaining = 0) :
          ∀ e ∈ (writeMessages false w ms).log, e.InBounds n := by
        cases ms with
        | nil => exact hw.log
        | cons m ms =>
            rw [writeMessages, if_neg (by omega)]
            exact hw.log
      constructor
      · intro h
        have hmessage : ∀ e ∈ (writeMessage first w m).log, e.InBounds n := fun e he ↦
          h e ((log_isPrefix_writeMessages false _ ms).subset he)
        rcases writeMessage_cases hmessage with hfits | hcut
        · rcases Nat.eq_or_lt_of_le hfits with hexact | hless
          · exact .inl ⟨m.content, List.prefix_rfl, hexact⟩
          · obtain ⟨hsound, -, hremaining⟩ := writeMessage_of_fits first m hw hfits
            rw [ih false hsound (by omega), hremaining] at h
            exact .inr ⟨hless, h⟩
        · exact .inl hcut
      · rintro (⟨content, hcut, hlen⟩ | ⟨hless, hroom⟩)
        · obtain ⟨hsound, -, hzero⟩ := writeMessage_of_cut first m hw hcut hlen
          exact hstop hsound hzero
        · obtain ⟨hsound, -, hremaining⟩ := writeMessage_of_fits first m hw (Nat.le_of_lt hless)
          rw [ih false hsound (by omega), hremaining]
          exact hroom

/-- Every message that is written ends with a terminator. -/
theorem zero_mem_writeMessages (first : Bool) (ms : List Message) (hw : w.Sound n)
    (hzero : (0 : UInt8) ∈ w.buffer ∨ ms ≠ [] ∧ 0 < w.remaining)
    (h : ∀ e ∈ (writeMessages first w ms).log, e.InBounds n) :
    (0 : UInt8) ∈ (writeMessages first w ms).buffer := by
  induction ms generalizing first w with
  | nil => exact hzero.resolve_right fun hne ↦ hne.1 rfl
  | cons m ms ih =>
      rw [writeMessages] at h ⊢
      split_ifs at h ⊢ with hpos
      · have hmessage : ∀ e ∈ (writeMessage first w m).log, e.InBounds n := fun e he ↦
          h e ((log_isPrefix_writeMessages false _ ms).subset he)
        rcases writeMessage_cases hmessage with hfits | ⟨content, hcut, hlen⟩
        · obtain ⟨hsound, hmem, -⟩ := writeMessage_of_fits first m hw hfits
          exact ih false hsound (.inl hmem) h
        · obtain ⟨hsound, hmem, -⟩ := writeMessage_of_cut first m hw hcut hlen
          exact ih false hsound (.inl hmem) h
      · exact hzero.resolve_right fun hne ↦ hpos hne.2

end Bounds

theorem buildMessagesJson_inBounds_iff (ctx : ChatContext) {outJson : Bytes} (hne : outJson ≠ []) :
    (∀ e ∈ (buildMessagesJson ctx outJson).log, e.InBounds outJson.length) ↔
      Room true ctx.messages outJson.length :=
  writeMessages_inBounds_iff true ctx.messages (Writer.start_sound outJson)
    (List.length_pos_iff.mpr hne)

/-- The encoder stays in its buffer, whatever was there before, exactly when the
messages fit or are cut at its end. -/
theorem buildMessagesJson_stays_iff (ctx : ChatContext) (outLen : ℕ) (hpos : 1 ≤ outLen) :
    (∀ outJson : Bytes, outJson.length = outLen →
      StaysInBuffer outLen (buildMessagesJson ctx outJson)) ↔ FitsBuffer ctx.messages outLen := by
  have hne (outJson : Bytes) (hlen : outJson.length = outLen) : outJson ≠ [] :=
    List.length_pos_iff.mp (by omega)
  constructor
  · intro h
    have hlen : (List.replicate outLen (1 : UInt8)).length = outLen := List.length_replicate
    obtain ⟨hlog, hzero⟩ := h _ hlen
    refine ⟨?_, ?_⟩
    · intro hempty
      rw [buildMessagesJson, hempty] at hzero
      exact absurd (List.eq_of_mem_replicate hzero) (by decide)
    · have hroom := buildMessagesJson_inBounds_iff ctx (hne _ hlen)
      rw [hlen] at hroom
      exact hroom.mp hlog
  · rintro ⟨hsome, hroom⟩ outJson hlen
    have hlog := buildMessagesJson_inBounds_iff ctx (hne outJson hlen)
    rw [hlen] at hlog
    refine ⟨hlog.mpr hroom, ?_⟩
    refine zero_mem_writeMessages true ctx.messages (Writer.start_sound outJson)
      (.inr ⟨hsome, List.length_pos_iff.mpr (hne outJson hlen)⟩) ?_
    rw [hlen]
    exact hlog.mpr hroom

theorem buildMessagesJson_stays_short :
    StaysInBuffer 8192 (buildMessagesJson ⟨[⟨ascii "user", ascii "hi"⟩], 32⟩
      (List.replicate 8192 1)) :=
  (buildMessagesJson_stays_iff _ 8192 (by decide)).mpr ⟨by decide, .inl (by decide)⟩ _
    List.length_replicate

/-- A content whose last byte, a quote, needs two bytes where one is left before
the closing. -/
def misalignedContent : Bytes := List.replicate 8163 97 ++ [34]

def misalignedContext : ChatContext :=
  ⟨[⟨ascii "user", misalignedContent⟩, ⟨ascii "assistant", ascii "ok"⟩], 32⟩

theorem misalignedContext_stored : ∀ m ∈ misalignedContext.messages, m.Stored := by
  have hlength : misalignedContent.length = 8164 := by
    rw [misalignedContent, List.length_append, List.length_replicate, List.length_singleton]
  have hnul : (0 : UInt8) ∉ misalignedContent := by
    rw [misalignedContent, List.mem_append, not_or]
    exact ⟨fun h ↦ absurd (List.eq_of_mem_replicate h) (by decide), by decide⟩
  rw [misalignedContext]
  simp only [List.forall_mem_cons]
  refine ⟨⟨by decide, ?_, by decide, hnul⟩, ⟨by decide, by decide, by decide, by decide⟩,
    List.forall_mem_nil _⟩
  simp only [hlength]
  decide

theorem escape_replicate (k : ℕ) :
    Escape.escape escapeLetter (List.replicate k 97) = List.replicate k 97 :=
  Escape.escape_eq_self fun c hc ↦ by rw [List.eq_of_mem_replicate hc]; rfl

/-- The counter goes below zero at the end of the first message, and the second
is written behind the buffer. -/
theorem buildMessagesJson_leaves_buffer :
    ¬ ∀ (ctx : ChatContext) (outJson : Bytes), (∀ m ∈ ctx.messages, m.Stored) →
      1 ≤ outJson.length → StaysInBuffer outJson.length (buildMessagesJson ctx outJson) := by
  intro h
  have hlen : (List.replicate 8192 (1 : UInt8)).length = 8192 := List.length_replicate
  have hstays := h misalignedContext (List.replicate 8192 1) misalignedContext_stored
    (by rw [hlen]; decide)
  have hne : List.replicate 8192 (1 : UInt8) ≠ [] := List.length_pos_iff.mp (by rw [hlen]; decide)
  have hroom := (buildMessagesJson_inBounds_iff misalignedContext hne).mp hstays.1
  rw [hlen, misalignedContext, room_cons] at hroom
  have hfront (content : Bytes) : (messageFront ⟨ascii "user", content⟩).length = 26 := rfl
  simp only [length_messageJson, hfront, separator, if_true, List.length_nil] at hroom
  have hescape : (Escape.escape escapeLetter misalignedContent).length = 8165 := by
    have happend : Escape.escape escapeLetter misalignedContent =
        Escape.escape escapeLetter (List.replicate 8163 97) ++ [92, 34] := List.flatMap_append
    rw [happend, escape_replicate, List.length_append, List.length_replicate]
    rfl
  rcases hroom with ⟨content, hcut, hexact⟩ | ⟨hless, -⟩
  · rcases List.prefix_concat_iff.mp hcut with rfl | hcut
    · have hsame : (Escape.escape escapeLetter (List.replicate 8163 97 ++ [34])).length = 8165 :=
        hescape
      omega
    · obtain ⟨hle, heq⟩ := List.prefix_replicate_iff.mp hcut
      rw [heq, escape_replicate, List.length_replicate] at hexact
      omega
  · omega

end DoctorClaw
