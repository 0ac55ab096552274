import DoctorClaw.Lib.CString
import DoctorClaw.Lib.Lists

/-!
# Decoding tool calls

`provider_openai_with_tools` finds the array of tool calls in the answer by
its first brackets, cuts it at its closing braces and looks for the value of
`"function"` in each piece.  The first `"function"` of a piece is the value of
its `"type"`, the colon behind it is the one of the key, and what is then taken
for the name is the first quoted word of the object, its key `name`; the
arguments become the whole object cut to 127 bytes.

Only a call whose identifier is itself `function` takes another way: the scan
then stops at the `"type"` and finds neither name nor arguments.
-/

namespace DoctorClaw

/-! ## The decoder -/

/-- The text up to the bracket that closes the first one, `depth` of them
being open. -/
def balanced : ℕ → Bytes → Bytes
  | _, [] => []
  | depth, c :: s =>
    let depth := if c = 123 ∨ c = 91 then depth + 1
      else if c = 125 ∨ c = 93 then depth - 1 else depth
    if depth = 0 then [c] else c :: balanced depth s

/-- The value behind a colon, as `find_json_value` copies it. -/
def jsonValue (outLen : ℕ) (s : Bytes) : Option Bytes :=
  match s.dropWhile CString.isspace with
  | 34 :: rest =>
      if (34 : UInt8) ∈ rest then some ((rest.takeWhile (· ≠ 34)).take (outLen - 1)) else none
  | 123 :: rest => some ((balanced 0 (123 :: rest)).take (outLen - 1))
  | 91 :: rest => some ((balanced 0 (91 :: rest)).take (outLen - 1))
  | rest => some ((rest.takeWhile fun c ↦ !CString.isspace c && c ≠ 44 && c ≠ 125).take
      (outLen - 1))

def findJsonValue (json key : Bytes) (outLen : ℕ) : Option Bytes :=
  ((CString.strstr ([34] ++ key ++ [34]) json).bind (CString.strchr 58)).bind fun found ↦
    jsonValue outLen found.tail

def funcNameSize : ℕ := 128

def argumentsSize : ℕ := 4096

/-- Name and arguments from the value of `"function"`.  The fields of the
response are zero before. -/
def splitFunction (funcName : Bytes) : Bytes × Bytes :=
  let arguments := match CString.strchr 123 funcName with
    | some start => start.take (argumentsSize - 1)
    | none => []
  let name := match CString.strchr 34 funcName with
    | some start =>
        if (34 : UInt8) ∈ start.tail then
          let name := start.tail.takeWhile (· ≠ 34)
          if name.length < funcNameSize then name else []
        else []
    | none => []
  (name, arguments)

def decodeCall (callJson : Bytes) : Option (Bytes × Bytes) :=
  if callJson.length < argumentsSize then
    (findJsonValue callJson (ascii "function") funcNameSize).map splitFunction
  else none

def maxToolCalls : ℕ := 16

/-- The loop over the calls.  `arrEnd` is the number of bytes from the closing
bracket on, so that a pointer lies before it when more bytes follow. -/
def decodeCalls (arrEnd : ℕ) : ℕ → ℕ → Option Bytes → List (Bytes × Bytes)
  | 0, _, _ => []
  | _, _, none => []
  | fuel + 1, callIdx, some callStart =>
    if callIdx < maxToolCalls ∧ arrEnd < callStart.length then
      match CString.strchr 125 callStart with
      | none => []
      | some callEnd =>
          let callJson := callStart.take (callStart.length - callEnd.length + 1)
          let next := CString.strchr 123 callEnd.tail
          match decodeCall callJson with
          | some call => call :: decodeCalls arrEnd fuel (callIdx + 1) next
          | none => decodeCalls arrEnd fuel callIdx next
    else []

def contentSize : ℕ := 16384

def toolCallsJsonSize : ℕ := 4096

/-- The calls found in an answer, `call_count` being their number.  `none` is
an array that `strncpy` writes past the end of `tool_calls_json`. -/
def decodeToolCalls (data : Bytes) : Option (List (Bytes × Bytes)) :=
  match CString.strstr (ascii "\"tool_calls\"") data with
  | none => some []
  | some start =>
    match CString.strchr 91 start with
    | none => some []
    | some arrStart =>
      match CString.strchr 93 arrStart with
      | none => some []
      | some arrEnd =>
          let arrLen := arrStart.length - arrEnd.length + 1
          if contentSize ≤ arrLen then some []
          else if toolCallsJsonSize < arrLen then none
          else some (decodeCalls arrEnd.length (arrStart.length + 1) 0
            (CString.strchr 123 arrStart))

/-! ## The format -/

def Unquoted (s : Bytes) : Prop := ∀ c ∈ s, c ∉ ([34, 92, 123, 125, 91, 93] : Bytes)

instance (s : Bytes) : Decidable (Unquoted s) :=
  List.decidableBAll (fun c ↦ c ∉ ([34, 92, 123, 125, 91, 93] : Bytes)) s

structure ToolCallSpec where
  id : Bytes
  name : Bytes
  arguments : Bytes
  id_ok : Unquoted id
  name_ok : Unquoted name
  arguments_ok : Unquoted arguments

def ToolCallSpec.function (c : ToolCallSpec) : Bytes :=
  ascii "\x7b\"name\":\"" ++ (c.name ++ (ascii "\",\"arguments\":\"" ++ (c.arguments ++ [34])))

/-- A call up to the first closing brace, which is left out. -/
def ToolCallSpec.front (c : ToolCallSpec) : Bytes :=
  ascii "\x7b\"id\":\"" ++ (c.id ++ (ascii "\",\"type\":\"function\",\"function\":" ++ c.function))

def ToolCallSpec.render (c : ToolCallSpec) : Bytes := c.front ++ [125, 125]

def renderCalls : List ToolCallSpec → Bytes
  | [] => []
  | [c] => c.render
  | c :: cs => c.render ++ 44 :: renderCalls cs

def renderToolCalls (cs : List ToolCallSpec) : Bytes :=
  ascii "\x7b\"tool_calls\":[" ++ (renderCalls cs ++ ascii "]\x7d")

/-! ## One call -/

section Call

variable (c : ToolCallSpec)

theorem Unquoted.notMem {s : Bytes} (h : Unquoted s) {d : UInt8}
    (hd : d ∈ ([34, 92, 123, 125, 91, 93] : Bytes)) : d ∉ s := fun hs ↦ h d hs hd

theorem balanced_flat {s : Bytes} (hs : ∀ c ∈ s, c ∉ ([123, 91, 125, 93] : Bytes)) (rest : Bytes) :
    balanced 1 (s ++ 125 :: rest) = s ++ [125] := by
  induction s with
  | nil => simp [balanced]
  | cons c s ih =>
      have hc := hs c List.mem_cons_self
      have hrest := ih fun d hd ↦ hs d (List.mem_cons_of_mem _ hd)
      simp only [List.mem_cons, List.not_mem_nil, or_false, not_or] at hc
      simp [balanced, hc, hrest]

theorem balanced_function :
    balanced 0 (c.function ++ [125]) = c.function ++ [125] := by
  have hflat : ∀ d ∈ ascii "\"name\":\"" ++ (c.name ++ (ascii "\",\"arguments\":\"" ++
      (c.arguments ++ [34]))), d ∉ ([123, 91, 125, 93] : Bytes) := by
    have hlit : ∀ d ∈ ascii "\"name\":\"" ++ ascii "\",\"arguments\":\"" ++ [34],
        d ∉ ([123, 91, 125, 93] : Bytes) := by decide +kernel
    have hsub : ∀ d ∈ ([123, 91, 125, 93] : Bytes), d ∈ ([34, 92, 123, 125, 91, 93] : Bytes) := by
      decide +kernel
    intro d hd hbad
    simp only [List.mem_append] at hd hlit
    rcases hd with hd | hd | hd | hd | hd
    · exact hlit d (.inl (.inl hd)) hbad
    · exact c.name_ok d hd (hsub d hbad)
    · exact hlit d (.inl (.inr hd)) hbad
    · exact c.arguments_ok d hd (hsub d hbad)
    · exact hlit d (.inr hd) hbad
  have hopen : balanced 0 (c.function ++ [125]) = 123 :: balanced 1 (ascii "\"name\":\"" ++ (c.name ++
      (ascii "\",\"arguments\":\"" ++ (c.arguments ++ [34]))) ++ 125 :: []) := rfl
  rw [hopen, balanced_flat hflat]
  rfl

theorem strstr_function_of_ne (hid : c.id ≠ ascii "function") :
    CString.strstr (ascii "\"function\"") (c.front ++ [125]) =
      some (ascii "\"function\",\"function\":" ++ (c.function ++ [125])) := by
  have hquote : (34 : UInt8) ∉ c.id := c.id_ok.notMem (by decide)
  have hopen : c.front ++ [125] = ascii "\x7b\"id\":" ++ (34 :: (c.id ++ 34 ::
      (ascii ",\"type\":" ++ (ascii "\"function\",\"function\":" ++ (c.function ++ [125]))))) := by
    simp only [ToolCallSpec.front, List.append_assoc]
    rfl
  rw [hopen, CString.strstr_of_skips (by decide), CString.strstr_cons_of_not,
    CString.strstr_append_of_notMem (c := 34) rfl hquote,
    show (34 : UInt8) :: (ascii ",\"type\":" ++ (ascii "\"function\",\"function\":" ++
      (c.function ++ [125]))) = ascii "\",\"type\":" ++ (ascii "\"function\",\"function\":" ++
      (c.function ++ [125])) from rfl, CString.strstr_of_skips (by decide),
    CString.strstr_of_isPrefix]
  · exact ⟨ascii ",\"function\":" ++ (c.function ++ [125]), rfl⟩
  · intro hprefix
    have hword : ascii "function" ++ [34] <+: c.id ++ 34 :: (ascii ",\"type\":" ++
        (ascii "\"function\",\"function\":" ++ (c.function ++ [125]))) :=
      (List.cons_prefix_cons.mp hprefix).2
    exact hid (CString.eq_of_quoted_prefix (by decide) hquote hword).symm

theorem findJsonValue_of_ne (hid : c.id ≠ ascii "function") :
    findJsonValue (c.front ++ [125]) (ascii "function") funcNameSize =
      some ((c.function ++ [125]).take 127) := by
  have hcolon : CString.strchr 58 (ascii "\"function\",\"function\":" ++ (c.function ++ [125])) =
      some (58 :: (c.function ++ [125])) :=
    CString.strchr_append (s := ascii "\"function\",\"function\"") (by decide) _
  rw [findJsonValue, show [34] ++ ascii "function" ++ [34] = ascii "\"function\"" from rfl,
    strstr_function_of_ne c hid, Option.bind_some, hcolon, Option.bind_some]
  change some ((balanced 0 (c.function ++ [125])).take 127) = _
  rw [balanced_function]

theorem findJsonValue_of_eq (hid : c.id = ascii "function") :
    findJsonValue (c.front ++ [125]) (ascii "function") funcNameSize = some (ascii "function") := by
  have hopen : c.front ++ [125] = ascii "\x7b\"id\":" ++ (ascii "\"function\",\"type\"" ++
      58 :: (ascii "\"function\",\"function\":" ++ (c.function ++ [125]))) := by
    simp only [ToolCallSpec.front, hid, List.append_assoc]
    rfl
  have hfound (s : Bytes) : CString.strstr (ascii "\"function\"")
      (ascii "\x7b\"id\":" ++ (ascii "\"function\",\"type\"" ++ s)) =
      some (ascii "\"function\",\"type\"" ++ s) := by
    rw [CString.strstr_of_skips (by decide), CString.strstr_of_isPrefix]
    exact ⟨ascii ",\"type\"" ++ s, rfl⟩
  rw [findJsonValue, show [34] ++ ascii "function" ++ [34] = ascii "\"function\"" from rfl, hopen,
    hfound, Option.bind_some, CString.strchr_append (by decide), Option.bind_some]
  rfl

theorem splitFunction_name (rest : Bytes) :
    splitFunction (ascii "\x7b\"name\":\"" ++ rest) =
      (ascii "name", (ascii "\x7b\"name\":\"" ++ rest).take 4095) := rfl

theorem decodeCall_of_ne (hid : c.id ≠ ascii "function") {name arguments : Bytes}
    (h : decodeCall (c.front ++ [125]) = some (name, arguments)) : (123 : UInt8) ∈ arguments := by
  unfold decodeCall at h
  split_ifs at h
  rw [findJsonValue_of_ne c hid, Option.map_some, Option.some.injEq] at h
  have htake : (c.function ++ [125]).take 127 = ascii "\x7b\"name\":\"" ++ ((c.name ++
      (ascii "\",\"arguments\":\"" ++ (c.arguments ++ [34])) ++ [125]).take 118) := rfl
  rw [htake, splitFunction_name, Prod.mk.injEq] at h
  rw [← h.2]
  exact List.mem_cons_self

theorem decodeCall_of_eq (hid : c.id = ascii "function")
    (hlen : (c.front ++ [125]).length < argumentsSize) :
    decodeCall (c.front ++ [125]) = some ([], []) := by
  rw [decodeCall, if_pos hlen, findJsonValue_of_eq c hid]
  rfl

/-- A call is recovered only when there is nothing to recover. -/
theorem decodeCall_eq_iff :
    decodeCall (c.front ++ [125]) = some (c.name, c.arguments) ↔
      c.id = ascii "function" ∧ c.name = [] ∧ c.arguments = [] := by
  constructor
  · intro h
    by_cases hid : c.id = ascii "function"
    · refine ⟨hid, ?_⟩
      have hlen : (c.front ++ [125]).length < argumentsSize := by
        by_contra hlen
        rw [decodeCall, if_neg hlen] at h
        cases h
      rw [decodeCall_of_eq c hid hlen, Option.some.injEq, Prod.mk.injEq] at h
      exact ⟨h.1.symm, h.2.symm⟩
    · exact absurd (decodeCall_of_ne c hid h) (c.arguments_ok.notMem (by decide))
  · rintro ⟨hid, hname, harguments⟩
    rw [decodeCall_of_eq c hid, hname, harguments]
    simp only [ToolCallSpec.front, ToolCallSpec.function, hid, hname, harguments]
    decide

end Call

/-! ## The loop -/

theorem notMem_front (c : ToolCallSpec) {d : UInt8} (hd : d ∈ ([125, 93] : Bytes)) :
    d ∉ c.front := by
  have hlit : ∀ d ∈ ([125, 93] : Bytes), d ∉ ascii "\x7b\"id\":\"" ∧
      d ∉ ascii "\",\"type\":\"function\",\"function\":" ∧ d ∉ ascii "\x7b\"name\":\"" ∧
      d ∉ ascii "\",\"arguments\":\"" ∧ d ∉ ([34] : Bytes) ∧
      d ∈ ([34, 92, 123, 125, 91, 93] : Bytes) := by decide +kernel
  obtain ⟨h₁, h₂, h₃, h₄, h₅, hbad⟩ := hlit d hd
  simp only [ToolCallSpec.front, ToolCallSpec.function, List.mem_append, not_or]
  exact ⟨h₁, c.id_ok.notMem hbad, h₂, h₃, c.name_ok.notMem hbad, h₄, c.arguments_ok.notMem hbad, h₅⟩

theorem renderCalls_cons (c : ToolCallSpec) (cs : List ToolCallSpec) :
    ∃ s, renderCalls (c :: cs) = 123 :: s := by
  cases cs <;> exact ⟨_, rfl⟩

theorem decodeCalls_cons {fuel callIdx : ℕ} (hidx : callIdx < maxToolCalls) (c : ToolCallSpec)
    {more : Bytes} (hmore : 2 ≤ more.length) :
    decodeCalls 2 (fuel + 1) callIdx (some (c.render ++ more)) =
      match decodeCall (c.front ++ [125]) with
      | some call => call :: decodeCalls 2 fuel (callIdx + 1) (CString.strchr 123 more)
      | none => decodeCalls 2 fuel callIdx (CString.strchr 123 more) := by
  have hend : CString.strchr 125 (c.render ++ more) = some (125 :: 125 :: more) := by
    rw [ToolCallSpec.render, List.append_assoc]
    exact CString.strchr_append (notMem_front c (by decide)) _
  have hlen : (c.render ++ more).length = c.front.length + 2 + more.length := by
    simp [ToolCallSpec.render]
    omega
  have hjson : (c.render ++ more).take ((c.render ++ more).length -
      (125 :: 125 :: more).length + 1) = c.front ++ [125] := by
    rw [hlen, show c.front.length + 2 + more.length - (125 :: 125 :: more).length + 1 =
      (c.front ++ [125]).length by simp; omega]
    rw [show c.render ++ more = (c.front ++ [125]) ++ 125 :: more by simp [ToolCallSpec.render],
      List.take_left]
  have hnext : CString.strchr 123 (125 :: 125 :: more).tail = CString.strchr 123 more := by
    simp [CString.strchr]
  rw [decodeCalls, if_pos ⟨hidx, by omega⟩, hend]
  simp only [hjson, hnext]

theorem decodeCalls_renderCalls (cs : List ToolCallSpec) {fuel callIdx : ℕ} (hne : cs ≠ [])
    (hfuel : cs.length < fuel) (hidx : callIdx + cs.length ≤ maxToolCalls) :
    decodeCalls 2 fuel callIdx (some (renderCalls cs ++ ascii "]\x7d")) =
      cs.filterMap fun c ↦ decodeCall (c.front ++ [125]) := by
  induction cs generalizing fuel callIdx with
  | nil => exact absurd rfl hne
  | cons c cs ih =>
      obtain ⟨fuel, rfl⟩ : ∃ k, fuel = k + 1 := ⟨fuel - 1, by omega⟩
      simp only [List.length_cons] at hfuel hidx
      have hidx' : callIdx < maxToolCalls := by omega
      cases cs with
      | nil =>
          have hlast : CString.strchr 123 (ascii "]\x7d") = none := rfl
          have hstop (k n : ℕ) : decodeCalls 2 k n none = [] := by cases k <;> rfl
          rw [renderCalls, decodeCalls_cons hidx' c (by decide), hlast, List.filterMap_cons]
          cases decodeCall (c.front ++ [125]) <;> simp [hstop]
      | cons d cs =>
          have hcomma : renderCalls (c :: d :: cs) ++ ascii "]\x7d" =
              c.render ++ (44 :: (renderCalls (d :: cs) ++ ascii "]\x7d")) := by
            rw [renderCalls, List.append_assoc, List.cons_append]
            simp
          have hnext : CString.strchr 123 (44 :: (renderCalls (d :: cs) ++ ascii "]\x7d")) =
              some (renderCalls (d :: cs) ++ ascii "]\x7d") := by
            obtain ⟨s, hs⟩ := renderCalls_cons d cs
            rw [hs]
            exact CString.strchr_append (s := [44]) (by decide) _
          have hlen : 2 ≤ (44 :: (renderCalls (d :: cs) ++ ascii "]\x7d")).length := by
            rw [List.length_cons, List.length_append, show (ascii "]\x7d").length = 2 from rfl]
            omega
          rw [hcomma, decodeCalls_cons hidx' c hlen, hnext, List.filterMap_cons]
          cases decodeCall (c.front ++ [125]) with
          | none => exact ih (by simp) (by omega) (by omega)
          | some call =>
              simp only [List.cons.injEq, true_and]
              exact ih (by simp) (by omega) (by omega)

/-! ## The whole answer -/

theorem notMem_renderCalls (cs : List ToolCallSpec) : (93 : UInt8) ∉ renderCalls cs := by
  have hcall (c : ToolCallSpec) : (93 : UInt8) ∉ c.render := by
    simp only [ToolCallSpec.render, List.mem_append, not_or]
    exact ⟨notMem_front c (by decide), by decide⟩
  fun_induction renderCalls cs with
  | case1 => simp
  | case2 c => exact hcall c
  | case3 c cs hcs ih =>
      simp only [List.mem_append, List.mem_cons, not_or]
      exact ⟨hcall c, by decide, ih⟩

theorem length_le_renderCalls (cs : List ToolCallSpec) : cs.length ≤ (renderCalls cs).length := by
  fun_induction renderCalls cs with
  | case1 => simp
  | case2 c => simp [ToolCallSpec.render]
  | case3 c cs hcs ih =>
      simp only [List.length_append, List.length_cons]
      omega

theorem decodeToolCalls_render {cs : List ToolCallSpec} (hne : cs ≠ [])
    (hcs : cs.length ≤ maxToolCalls) :
    decodeToolCalls (renderToolCalls cs) =
      if contentSize ≤ (renderCalls cs).length + 2 then some []
      else if toolCallsJsonSize < (renderCalls cs).length + 2 then none
      else some (cs.filterMap fun c ↦ decodeCall (c.front ++ [125])) := by
  have hkey : CString.strstr (ascii "\"tool_calls\"") (renderToolCalls cs) =
      some (ascii "\"tool_calls\":" ++ (91 :: (renderCalls cs ++ ascii "]\x7d"))) := by
    have hopen : renderToolCalls cs = [123] ++ (ascii "\"tool_calls\":" ++
        (91 :: (renderCalls cs ++ ascii "]\x7d"))) := rfl
    rw [hopen, CString.strstr_of_skips (by decide), CString.strstr_of_isPrefix]
    exact ⟨58 :: 91 :: (renderCalls cs ++ ascii "]\x7d"), rfl⟩
  have hopen : CString.strchr 91 (ascii "\"tool_calls\":" ++
      (91 :: (renderCalls cs ++ ascii "]\x7d"))) = some (91 :: (renderCalls cs ++ ascii "]\x7d")) :=
    CString.strchr_append (by decide) _
  have hclose : CString.strchr 93 (91 :: (renderCalls cs ++ ascii "]\x7d")) =
      some (ascii "]\x7d") := by
    have hnot : (93 : UInt8) ∉ 91 :: renderCalls cs := by
      simp only [List.mem_cons, not_or]
      exact ⟨by decide, notMem_renderCalls cs⟩
    exact CString.strchr_append hnot [125]
  have hfirst : CString.strchr 123 (91 :: (renderCalls cs ++ ascii "]\x7d")) =
      some (renderCalls cs ++ ascii "]\x7d") := by
    cases cs with
    | nil => exact absurd rfl hne
    | cons c cs =>
        obtain ⟨s, hs⟩ := renderCalls_cons c cs
        rw [hs]
        exact CString.strchr_append (s := [91]) (by decide) _
  have htwo : (ascii "]\x7d").length = 2 := rfl
  have hlen : (91 :: (renderCalls cs ++ ascii "]\x7d")).length = (renderCalls cs).length + 3 := by
    simp [htwo]
  have hsize := length_le_renderCalls cs
  rw [decodeToolCalls, hkey]
  simp only [hopen, hclose, hfirst, htwo, hlen]
  rw [decodeCalls_renderCalls cs hne (by omega) (by omega)]
  rfl

theorem length_renderCalls_le {cs : List ToolCallSpec} {n : ℕ}
    (h : ∀ c ∈ cs, c.render.length ≤ n) : (renderCalls cs).length ≤ cs.length * (n + 1) := by
  fun_induction renderCalls cs with
  | case1 => simp
  | case2 c =>
      have hc := h c List.mem_cons_self
      simp only [List.length_cons, List.length_nil]
      omega
  | case3 c cs hcs ih =>
      have hc := h c List.mem_cons_self
      have hrest := ih fun d hd ↦ h d (List.mem_cons_of_mem _ hd)
      simp only [List.length_append, List.length_cons, Nat.succ_mul] at hrest ⊢
      omega

/-- The answer is decoded exactly when each call has the identifier `function`
and neither a name nor arguments. -/
theorem tool_calls_recovered_iff (cs : List ToolCallSpec) (hne : cs ≠ [])
    (hcs : cs.length ≤ maxToolCalls) :
    decodeToolCalls (renderToolCalls cs) = some (cs.map fun c ↦ (c.name, c.arguments)) ↔
      ∀ c ∈ cs, c.id = ascii "function" ∧ c.name = [] ∧ c.arguments = [] := by
  have hloop : (cs.filterMap fun c ↦ decodeCall (c.front ++ [125])) =
      cs.map (fun c ↦ (c.name, c.arguments)) ↔
        ∀ c ∈ cs, c.id = ascii "function" ∧ c.name = [] ∧ c.arguments = [] := by
    have hread : (cs.filterMap fun c ↦ decodeCall (c.front ++ [125])).map id =
        cs.map (fun c ↦ (c.name, c.arguments)) ↔
          ∀ c ∈ cs, (decodeCall (c.front ++ [125])).map id = some (c.name, c.arguments) :=
      List.map_filterMap_eq_map_iff
    simpa only [List.map_id, Option.map_id, id_eq, decodeCall_eq_iff] using hread
  rw [decodeToolCalls_render hne hcs]
  constructor
  · intro h
    split_ifs at h
    · exact absurd h (by simpa using hne.symm)
    · exact hloop.mp (Option.some.inj h)
  · intro h
    have hshort (c : ToolCallSpec) (hc : c ∈ cs) : c.render.length ≤ 74 := by
      obtain ⟨hid, hname, harguments⟩ := h c hc
      simp only [ToolCallSpec.render, ToolCallSpec.front, ToolCallSpec.function, hid, hname,
        harguments]
      decide
    have hlen := length_renderCalls_le hshort
    have hsmall : (renderCalls cs).length ≤ 1200 := by
      have hmax : maxToolCalls = 16 := rfl
      omega
    rw [if_neg (by rw [contentSize]; omega), if_neg (by rw [toolCallsJsonSize]; omega),
      hloop.mpr h]

def emptyCall : ToolCallSpec :=
  ⟨ascii "function", [], [], by decide, by decide, by decide⟩

theorem tool_calls_recovered_of_nothing :
    decodeToolCalls (renderToolCalls [emptyCall]) = some [([], [])] :=
  (tool_calls_recovered_iff [emptyCall] (by simp) (by decide)).mpr (by simp [emptyCall])

def shellCall : ToolCallSpec :=
  ⟨ascii "call_1", ascii "shell", ascii "x", by decide, by decide, by decide⟩

/-- A call of `shell` comes back as a call of `name`. -/
theorem tool_call_not_recovered :
    decodeToolCalls (renderToolCalls [shellCall]) =
        some [(ascii "name", ascii "\x7b\"name\":\"shell\",\"arguments\":\"x\"\x7d")] ∧
      decodeToolCalls (renderToolCalls [shellCall]) ≠
        some ([shellCall].map fun c ↦ (c.name, c.arguments)) := by
  have hdecode : decodeToolCalls (renderToolCalls [shellCall]) =
      some [(ascii "name", ascii "\x7b\"name\":\"shell\",\"arguments\":\"x\"\x7d")] := by
    decide +kernel
  refine ⟨hdecode, ?_⟩
  rw [hdecode]
  decide

end DoctorClaw
