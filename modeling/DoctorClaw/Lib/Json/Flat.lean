import DoctorClaw.Lib.Json
import Mathlib.Tactic.Common

/-!
# Flat objects as texts

An object whose values are scalars, with all that its text says besides: the
white space, the keys and the strings as they are written.  Every text that reads
as such an object is the text of a flat object.
-/

namespace Json

def Value.isScalar : Value → Bool
  | .array _ | .object _ => false
  | _ => true

/-- White space between two tokens. -/
abbrev Space := {s : Bytes // s.all isWs = true}

inductive Scalar
  | string (raw text : Bytes) (h : unescape none raw = some text)
  | other (raw : Bytes) (value : Value) (h : ∃ rest, parseScalar (raw ++ rest) = some (value, rest))

def Scalar.written : Scalar → Bytes
  | string raw _ _ => 34 :: (raw ++ [34])
  | other raw _ _ => raw

def Scalar.value : Scalar → Value
  | string _ text _ => .string text
  | other _ value _ => value

/-- What a scalar says: the decoded text of a string, and any other scalar as it
is written. -/
def Scalar.content : Scalar → Bytes
  | string _ text _ => text
  | other raw _ _ => raw

/-- A member, from the white space in front of the brace or comma before it. -/
structure Member where
  before : Space
  lead : Space
  rawKey : Bytes
  key : Bytes
  key_eq : unescape none rawKey = some key
  beforeColon : Space
  afterColon : Space
  value : Scalar

def Member.entry (m : Member) : Bytes × Value := (m.key, m.value.value)

/-- The member behind the byte that separates it from what is before. -/
def Member.written (sep : UInt8) (m : Member) : Bytes :=
  m.before.1 ++ sep :: (m.lead.1 ++ 34 :: (m.rawKey ++ 34 ::
    (m.beforeColon.1 ++ 58 :: (m.afterColon.1 ++ m.value.written))))

structure FlatObject where
  /-- In front of the brace, where there is no member. -/
  lead : Space
  members : List Member
  last : Space
  trail : Space

def FlatObject.written (o : FlatObject) : Bytes :=
  match o.members with
  | [] => o.lead.1 ++ [123]
  | m :: ms => m.written 123 ++ ms.flatMap (Member.written 44)

def FlatObject.text (o : FlatObject) : Bytes := o.written ++ (o.last.1 ++ 125 :: o.trail.1)

/-! ## Scalars -/

def startsScalar (c : UInt8) : Bool :=
  c == 110 || c == 116 || c == 102 || c == 45 || Decimal.isDigit c

theorem startsScalar_spec : ∀ c, startsScalar c = true → c ≠ 34 ∧ c ≠ 32 ∧ c ≠ 9 ∧ c ≠ 58 :=
  CString.forall_byte (by decide +kernel)

theorem scanDigits_eq_some {s d rest : Bytes} (h : scanDigits s = some (d, rest)) :
    s = d ++ rest ∧ (0 : UInt8) ∉ d ∧ ∃ c d', d = c :: d' ∧ Decimal.isDigit c = true := by
  unfold scanDigits at h
  split_ifs at h with hnil
  cases h
  refine ⟨(List.takeWhile_append_dropWhile).symm, fun hzero ↦ ?_, ?_⟩
  · exact absurd (List.mem_takeWhile_imp hzero) (by decide)
  · obtain ⟨c, d', hd⟩ := List.exists_cons_of_ne_nil hnil
    exact ⟨c, d', hd, List.mem_takeWhile_imp (hd ▸ List.mem_cons_self)⟩

theorem scanInt_eq_some {s i rest : Bytes} (h : scanInt s = some (i, rest)) :
    s = i ++ rest ∧ (0 : UInt8) ∉ i ∧ ∃ c i', i = c :: i' ∧ Decimal.isDigit c = true := by
  cases s with
  | nil => cases h
  | cons c s =>
      rw [scanInt] at h
      split_ifs at h with hzero
      · cases h
        exact ⟨by rw [hzero]; rfl, by decide, 48, [], rfl, by decide⟩
      · exact scanDigits_eq_some h

theorem scanFrac_eq_some {s f rest : Bytes} (h : scanFrac s = some (f, rest)) :
    s = f ++ rest ∧ (0 : UInt8) ∉ f := by
  cases s with
  | nil => cases h; exact ⟨rfl, List.not_mem_nil⟩
  | cons c s =>
      rw [scanFrac] at h
      split_ifs at h with hpoint
      · obtain ⟨p, hp, heq⟩ := Option.map_eq_some_iff.mp h
        cases heq
        obtain ⟨rfl, hzero, -⟩ := scanDigits_eq_some hp
        subst hpoint
        exact ⟨rfl, List.not_mem_cons_of_ne_of_not_mem (by decide) hzero⟩
      · cases h
        exact ⟨rfl, List.not_mem_nil⟩

theorem scanExp_eq_some {s e rest : Bytes} (h : scanExp s = some (e, rest)) :
    s = e ++ rest ∧ (0 : UInt8) ∉ e := by
  cases s with
  | nil => cases h; exact ⟨rfl, List.not_mem_nil⟩
  | cons c s =>
      rw [scanExp.eq_def] at h
      dsimp only at h
      split_ifs at h with hexp
      · have hc : (0 : UInt8) ≠ c := by
          obtain rfl | rfl := hexp
          · decide
          · decide
        cases s with
        | nil => cases h
        | cons d t =>
            dsimp only at h
            split_ifs at h with hsign
            · have hd : (0 : UInt8) ≠ d := by
                obtain rfl | rfl := hsign
                · decide
                · decide
              obtain ⟨p, hp, heq⟩ := Option.map_eq_some_iff.mp h
              cases heq
              obtain ⟨rfl, hzero, -⟩ := scanDigits_eq_some hp
              exact ⟨rfl, List.not_mem_cons_of_ne_of_not_mem hc
                (List.not_mem_cons_of_ne_of_not_mem hd hzero)⟩
            · obtain ⟨p, hp, heq⟩ := Option.map_eq_some_iff.mp h
              cases heq
              obtain ⟨hdigits, hzero, -⟩ := scanDigits_eq_some hp
              rw [hdigits]
              exact ⟨rfl, List.not_mem_cons_of_ne_of_not_mem hc hzero⟩
      · cases h
        exact ⟨rfl, List.not_mem_nil⟩

theorem scanNumber_eq_some {s t rest : Bytes} (h : scanNumber s = some (t, rest)) :
    s = t ++ rest ∧ (0 : UInt8) ∉ t ∧ ∃ c t', t = c :: t' ∧ startsScalar c = true := by
  obtain ⟨⟨i, r⟩, hint, h⟩ := Option.bind_eq_some_iff.mp h
  obtain ⟨⟨f, r'⟩, hfrac, h⟩ := Option.bind_eq_some_iff.mp h
  obtain ⟨⟨e, r''⟩, hexp, heq⟩ := Option.map_eq_some_iff.mp h
  obtain ⟨hs, hi, c, i', rfl, hc⟩ := scanInt_eq_some hint
  obtain ⟨rfl, hf⟩ := scanFrac_eq_some hfrac
  obtain ⟨rfl, he⟩ := scanExp_eq_some hexp
  cases heq
  dsimp only
  by_cases hminus : s.take 1 = [45]
  · rw [if_pos hminus] at hs ⊢
    refine ⟨?_, ?_, 45, c :: i' ++ f ++ e, rfl, by decide⟩
    · rw [← List.take_append_drop 1 s, hminus, hs]
      simp
    · simp only [List.mem_append, hi, hf, he, or_false]
      decide
  · rw [if_neg hminus] at hs ⊢
    refine ⟨by rw [hs]; simp, by simp only [List.mem_append, hi, hf, he, or_false]; simp, c,
      i' ++ f ++ e, rfl, ?_⟩
    simp [startsScalar, hc]

theorem parseScalar_eq_some {s rest : Bytes} {v : Value} (h : parseScalar s = some (v, rest)) :
    v.isScalar = true ∧ ∃ c raw, s = c :: raw ++ rest ∧ startsScalar c = true ∧
      (0 : UInt8) ∉ c :: raw := by
  unfold parseScalar at h
  split_ifs at h with hnull htrue hfalse
  · obtain ⟨t, rfl⟩ := hnull
    cases h
    exact ⟨rfl, 110, ascii "ull", rfl, rfl, by decide⟩
  · obtain ⟨t, rfl⟩ := htrue
    cases h
    exact ⟨rfl, 116, ascii "rue", rfl, rfl, by decide⟩
  · obtain ⟨t, rfl⟩ := hfalse
    cases h
    exact ⟨rfl, 102, ascii "alse", rfl, rfl, by decide⟩
  · obtain ⟨⟨t, r⟩, hnumber, heq⟩ := Option.map_eq_some_iff.mp h
    cases heq
    obtain ⟨hs, hzero, c, t', rfl, hc⟩ := scanNumber_eq_some hnumber
    exact ⟨rfl, c, t', hs, hc, hzero⟩

/-! ## No text has a NUL -/

theorem Space.zero_notMem (space : Space) : (0 : UInt8) ∉ space.1 := fun h ↦
  absurd (List.all_eq_true.mp space.2 0 h) (by decide)

theorem zero_notMem_of_unescape {s t : Bytes} (h : unescape none s = some t) : (0 : UInt8) ∉ s :=
  fun hzero ↦ absurd ((decodes_of_unescape h).printable 0 hzero) (by decide)

theorem Scalar.other_eq_cons {raw : Bytes} {value : Value}
    (h : ∃ rest, parseScalar (raw ++ rest) = some (value, rest)) :
    ∃ c raw', raw = c :: raw' ∧ startsScalar c = true ∧ (0 : UInt8) ∉ raw := by
  obtain ⟨rest, h⟩ := h
  obtain ⟨-, c, raw', hraw, hstart, hzero⟩ := parseScalar_eq_some h
  obtain rfl := List.append_cancel_right hraw
  exact ⟨c, raw', rfl, hstart, hzero⟩

theorem Scalar.zero_notMem_written (x : Scalar) : (0 : UInt8) ∉ x.written := by
  cases x with
  | string raw text h => simp [Scalar.written, zero_notMem_of_unescape h]
  | other raw value h =>
      obtain ⟨c, raw', -, -, hzero⟩ := Scalar.other_eq_cons h
      exact hzero

theorem Member.zero_notMem_written {sep : UInt8} (hsep : 0 ≠ sep) (m : Member) :
    (0 : UInt8) ∉ m.written sep := by
  simp [Member.written, hsep, Space.zero_notMem, zero_notMem_of_unescape m.key_eq,
    Scalar.zero_notMem_written]

theorem FlatObject.zero_notMem_text (o : FlatObject) : (0 : UInt8) ∉ o.text := by
  have hwritten : (0 : UInt8) ∉ o.written := by
    unfold FlatObject.written
    split
    · simp [Space.zero_notMem]
    · simp [Member.zero_notMem_written]
  simp [FlatObject.text, hwritten, Space.zero_notMem]

/-! ## Texts of flat objects -/

theorem expect_eq_some {c : UInt8} {s rest : Bytes} (h : expect c s = some rest) :
    ∃ space : Space, s = space.1 ++ c :: rest := by
  have hspace : (s.takeWhile isWs).all isWs = true :=
    List.all_eq_true.mpr fun b hb ↦ List.mem_takeWhile_imp hb
  refine ⟨⟨s.takeWhile isWs, hspace⟩, ?_⟩
  unfold expect at h
  conv_lhs => rw [← @List.takeWhile_append_dropWhile _ isWs s]
  cases hdrop : s.dropWhile isWs with
  | nil => rw [hdrop] at h; cases h
  | cons b t =>
      rw [hdrop] at h
      dsimp only at h
      split_ifs at h with hb
      cases h
      rw [hb]

theorem parseValue_eq_some {fuel : ℕ} {s rest : Bytes} {v : Value}
    (h : parseValue fuel s = some (v, rest)) (hv : v.isScalar = true) :
    ∃ (space : Space) (x : Scalar), s = space.1 ++ x.written ++ rest ∧ x.value = v := by
  cases fuel with
  | zero => cases h
  | succ fuel =>
      rw [parseValue] at h
      split at h
      next s' hquote =>
        obtain ⟨space, rfl⟩ := expect_eq_some hquote
        obtain ⟨p, hp, heq⟩ := Option.map_eq_some_iff.mp h
        cases heq
        obtain ⟨⟨raw, r⟩, hsplit, hp⟩ := Option.bind_eq_some_iff.mp hp
        obtain ⟨t, ht, rfl⟩ := Option.map_eq_some_iff.mp hp
        refine ⟨space, .string raw t ht, ?_, rfl⟩
        rw [splitString_eq_some hsplit]
        simp [Scalar.written]
      next =>
        split at h
        next s' hbrace =>
          split at h
          next => cases h; cases hv
          next =>
            obtain ⟨p, -, heq⟩ := Option.map_eq_some_iff.mp h
            cases heq
            cases hv
        next =>
          split at h
          next s' hbracket =>
            split at h
            next => cases h; cases hv
            next =>
              obtain ⟨p, -, heq⟩ := Option.map_eq_some_iff.mp h
              cases heq
              cases hv
          next =>
            have hspace : (s.takeWhile isWs).all isWs = true :=
              List.all_eq_true.mpr fun b hb ↦ List.mem_takeWhile_imp hb
            obtain ⟨-, c, raw, hraw, -⟩ := parseScalar_eq_some h
            refine ⟨⟨_, hspace⟩, .other (c :: raw) v ⟨rest, hraw ▸ h⟩, ?_, rfl⟩
            conv_lhs => rw [← @List.takeWhile_append_dropWhile _ isWs s, hraw]
            rw [Scalar.written, List.append_assoc]

theorem parseMembers_eq_some {fuel : ℕ} {s rest : Bytes} {ms : List (Bytes × Value)}
    (h : parseMembers fuel s = some (ms, rest)) (hms : ∀ p ∈ ms, p.2.isScalar = true)
    (before : Space) (sep : UInt8) :
    ∃ (m : Member) (ms' : List Member) (last : Space),
      before.1 ++ sep :: s =
        m.written sep ++ ms'.flatMap (Member.written 44) ++ (last.1 ++ 125 :: rest) ∧
      (m :: ms').map Member.entry = ms := by
  induction fuel using Nat.strong_induction_on generalizing s ms before sep with
  | _ fuel ih =>
  cases fuel with
  | zero => cases h
  | succ fuel =>
      rw [parseMembers] at h
      obtain ⟨s₁, hquote, h⟩ := Option.bind_eq_some_iff.mp h
      obtain ⟨⟨key, s₂⟩, hkey, h⟩ := Option.bind_eq_some_iff.mp h
      obtain ⟨s₃, hcolon, h⟩ := Option.bind_eq_some_iff.mp h
      obtain ⟨⟨v, s₄⟩, hvalue, h⟩ := Option.bind_eq_some_iff.mp h
      obtain ⟨⟨ms, r⟩, hmore, heq⟩ := Option.map_eq_some_iff.mp h
      cases heq
      rw [List.forall_mem_cons] at hms
      obtain ⟨lead, rfl⟩ := expect_eq_some hquote
      obtain ⟨⟨raw, r'⟩, hsplit, hkey⟩ := Option.bind_eq_some_iff.mp hkey
      obtain ⟨t, ht, heq⟩ := Option.map_eq_some_iff.mp hkey
      cases heq
      obtain ⟨beforeColon, hgap⟩ := expect_eq_some hcolon
      obtain ⟨afterColon, x, hx, rfl⟩ := parseValue_eq_some hvalue hms.1
      have hs := splitString_eq_some hsplit
      dsimp only at hgap hmore
      refine ⟨⟨before, lead, raw, key, ht, beforeColon, afterColon, x⟩, ?_⟩
      have hmember : ∀ rest', s₄ = rest' → before.1 ++ sep :: (lead.1 ++ 34 :: s₁) =
          (Member.written sep ⟨before, lead, raw, key, ht, beforeColon, afterColon, x⟩) ++
            rest' := by
        rintro _ rfl
        rw [hs, hgap, hx]
        simp [Member.written]
      cases fuel with
      | zero => cases hmore
      | succ fuel =>
          rw [parseMoreMembers] at hmore
          split at hmore
          next s₅ hcomma =>
            obtain ⟨between, hbetween⟩ := expect_eq_some hcomma
            obtain ⟨m, ms', last, hrest, hentries⟩ := ih fuel (by omega) hmore hms.2 between 44
            refine ⟨m :: ms', last, ?_, by rw [List.map_cons, hentries]; rfl⟩
            rw [hmember _ (hbetween.trans hrest)]
            simp
          next =>
            obtain ⟨s₅, hbrace, heq⟩ := Option.map_eq_some_iff.mp hmore
            cases heq
            obtain ⟨last, hlast⟩ := expect_eq_some hbrace
            refine ⟨[], last, ?_, rfl⟩
            rw [hmember _ hlast]
            simp

/-- Every text that reads as an object of scalars is the text of a flat
object with these members. -/
theorem exists_flatObject {text : Bytes} {ms : List (Bytes × Value)}
    (h : parse text = some (.object ms)) (hms : ∀ p ∈ ms, p.2.isScalar = true) :
    ∃ o : FlatObject, o.text = text ∧ o.members.map Member.entry = ms := by
  unfold parse at h
  split_ifs at h
  obtain ⟨⟨v, rest⟩, hvalue, h⟩ := Option.bind_eq_some_iff.mp h
  split_ifs at h with htrail
  cases h
  have hspace : rest.all isWs = true := by simpa using htrail
  rw [parseValue] at hvalue
  split at hvalue
  next =>
    obtain ⟨p, -, heq⟩ := Option.map_eq_some_iff.mp hvalue
    cases heq
  next =>
    split at hvalue
    next s₁ hopen =>
      obtain ⟨lead, rfl⟩ := expect_eq_some hopen
      split at hvalue
      next s₂ hclose =>
        obtain ⟨last, rfl⟩ := expect_eq_some hclose
        cases hvalue
        exact ⟨⟨lead, [], last, ⟨_, hspace⟩⟩, by simp [FlatObject.text, FlatObject.written], rfl⟩
      next =>
        obtain ⟨⟨ms', r⟩, hmembers, heq⟩ := Option.map_eq_some_iff.mp hvalue
        cases heq
        obtain ⟨m, ms', last, htext, hentries⟩ := parseMembers_eq_some hmembers hms lead 123
        exact ⟨⟨lead, m :: ms', last, ⟨_, hspace⟩⟩, htext.symm, hentries⟩
    next =>
      split at hvalue
      next =>
        split at hvalue
        next => cases hvalue
        next =>
          obtain ⟨p, -, heq⟩ := Option.map_eq_some_iff.mp hvalue
          cases heq
      next =>
        exact absurd (parseScalar_eq_some hvalue).1 Bool.false_ne_true

end Json
