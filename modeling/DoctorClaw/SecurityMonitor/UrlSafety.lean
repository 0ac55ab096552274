import DoctorClaw.Lib.Lists
import DoctorClaw.SecurityMonitor

/-!
# URLs that are safe to fetch

`security_monitor_url_safe_for_fetch` cuts the text between `://` and the next
slash at its first colon and compares the front with prefixes of private
addresses.  The second octet of `172.16.0.0/12` is compared with 16 to 19 and with
the single digits 1 to 3.
-/

namespace DoctorClaw

/-! ## The check -/

/-- The comparison of the second octet with a digit. -/
def isDigitOctet (host : Bytes) : Bool :=
  (ascii "172.").isPrefixOf host && 49 ≤ host.getD 4 0 && host.getD 4 0 ≤ 51 &&
    host.getD 5 0 == 46

def hostIsPrivateOrMetadata (host : Bytes) : Bool :=
  host = [] || host = ascii "localhost" || (ascii "127.").isPrefixOf host ||
    (ascii "10.").isPrefixOf host || (ascii "192.168.").isPrefixOf host ||
    ((ascii "172.16.").isPrefixOf host || (ascii "172.17.").isPrefixOf host ||
      (ascii "172.18.").isPrefixOf host || (ascii "172.19.").isPrefixOf host ||
      isDigitOctet host) ||
    host = ascii "169.254.169.254" || strcasecmp host (ascii "metadata.google.internal") ||
    ((CString.strstr (ascii "metadata") host).isSome &&
      (CString.strstr (ascii "google") host).isSome) ||
    strcasecmp host (ascii "instance-data")

def urlHostSize : ℕ := 256

/-- The URL is `none` for a null pointer. -/
def securityMonitorUrlSafeForFetch (url : Option Bytes) : Bool :=
  match url with
  | none => false
  | some url =>
      if url = [] then false
      else if !(ascii "http://").isPrefixOf url && !(ascii "https://").isPrefixOf url then false
      else match CString.strstr (ascii "://") url with
        | none => false
        | some rest =>
            let host := (rest.drop 3).takeWhile fun c ↦ c != 47
            if urlHostSize ≤ host.length then false
            else !hostIsPrivateOrMetadata (host.takeWhile fun c ↦ c != 58)

/-! ## URLs of addresses -/

structure Ipv4 where
  a : UInt8
  b : UInt8
  c : UInt8
  d : UInt8

def octet (n : UInt8) : Bytes := Decimal.printNat n.toNat

def Ipv4.text (ip : Ipv4) : Bytes :=
  octet ip.a ++ 46 :: (octet ip.b ++ 46 :: (octet ip.c ++ 46 :: octet ip.d))

/-- The address of the metadata service. -/
def Ipv4.IsMetadata (ip : Ipv4) : Prop := ip.a = 169 ∧ ip.b = 254 ∧ ip.c = 169 ∧ ip.d = 254

/-- 10.0.0.0/8, 127.0.0.0/8, 172.16.0.0/12, 192.168.0.0/16 and the metadata
service. -/
def Ipv4.IsPrivate (ip : Ipv4) : Prop :=
  ip.a = 10 ∨ ip.a = 127 ∨ (ip.a = 172 ∧ 16 ≤ ip.b ∧ ip.b ≤ 31) ∨
    (ip.a = 192 ∧ ip.b = 168) ∨ ip.IsMetadata

instance (ip : Ipv4) : Decidable ip.IsMetadata := inferInstanceAs (Decidable (_ ∧ _ ∧ _ ∧ _))

instance (ip : Ipv4) : Decidable ip.IsPrivate :=
  inferInstanceAs (Decidable (_ ∨ _ ∨ _ ∨ _ ∨ _))

/-- The text names the metadata service of a cloud. -/
def MentionsMetadata (s : Bytes) : Prop := ascii "metadata" <:+: s ∧ ascii "google" <:+: s

instance (s : Bytes) : Decidable (MentionsMetadata s) := inferInstanceAs (Decidable (_ ∧ _))

/-- The fronts of a host that is refused. -/
def refusedFronts : List Bytes :=
  [ascii "127.", ascii "10.", ascii "192.168.", ascii "172.16.", ascii "172.17.",
    ascii "172.18.", ascii "172.19.", ascii "172.1.", ascii "172.2.", ascii "172.3."]

def BeginsRefused (s : Bytes) : Prop := ∃ p ∈ refusedFronts, p <+: s

def IsRefusedName (s : Bytes) : Prop :=
  s = [] ∨ s = ascii "localhost" ∨ s = ascii "169.254.169.254" ∨
    strcasecmp s (ascii "metadata.google.internal") = true ∨ MentionsMetadata s ∨
    strcasecmp s (ascii "instance-data") = true

/-- An `http` or `https` URL whose host is an address. -/
structure Ipv4Url where
  scheme : Bytes
  userinfo : Option Bytes
  address : Ipv4
  port : Option Bytes
  path : Bytes
  query : Option Bytes
  scheme_ok : strcasecmp scheme (ascii "http") = true ∨ strcasecmp scheme (ascii "https") = true
  userinfo_ok : ∀ s ∈ userinfo, ∀ c ∈ s, c ≠ 0 ∧ c ≠ 35 ∧ c ≠ 47 ∧ c ≠ 63 ∧ c ≠ 64
  port_ok : ∀ s ∈ port, ∀ c ∈ s, Decimal.isDigit c = true
  path_ok : path = [] ∨ path.head? = some 47
  path_bytes : ∀ c ∈ path, c ≠ 0 ∧ c ≠ 35 ∧ c ≠ 63
  query_ok : ∀ s ∈ query, ∀ c ∈ s, c ≠ 0 ∧ c ≠ 35

namespace Ipv4Url

variable (u : Ipv4Url)

def userinfoText : Bytes := u.userinfo.elim [] fun s ↦ s ++ [64]

def portText : Bytes := u.port.elim [] fun s ↦ 58 :: s

def queryText : Bytes := u.query.elim [] fun s ↦ 63 :: s

def text : Bytes :=
  u.scheme ++ (ascii "://" ++ (u.userinfoText ++
    (u.address.text ++ (u.portText ++ (u.path ++ u.queryText)))))

/-- A query directly behind the authority, up to its first slash. -/
def authorityTail : Bytes :=
  if u.path = [] then u.queryText.takeWhile fun c ↦ c != 47 else []

/-- Everything between `://` and the first slash. -/
def authorityText : Bytes :=
  u.userinfoText ++ (u.address.text ++ (u.portText ++ u.authorityTail))

/-- A query directly behind the address, up to its first slash or colon. -/
def addressTail : Bytes :=
  if u.port = none then u.authorityTail.takeWhile fun c ↦ c != 58 else []

/-- When the check decides as the address demands.  A scheme with capitals and a long
authority are refused.  Without userinfo a query directly behind the address may name
the metadata service, which is refused, or hide its address, and the second octet
behind 172 must be neither 1 to 3 nor 20 to 31.  With userinfo the text up to its
first colon is checked in place of the host. -/
def CheckedRight : Prop :=
  if (u.scheme ≠ ascii "http" ∧ u.scheme ≠ ascii "https") ∨ 256 ≤ u.authorityText.length then
    u.address.IsPrivate
  else match u.userinfo with
    | none =>
        if MentionsMetadata u.addressTail then u.address.IsPrivate
        else
          ¬ (u.address.a = 172 ∧
            ((1 ≤ u.address.b ∧ u.address.b ≤ 3) ∨ (20 ≤ u.address.b ∧ u.address.b ≤ 31))) ∧
          ¬ (u.address.IsMetadata ∧ u.addressTail ≠ [])
    | some s =>
        if 58 ∈ s then
          let front := s.takeWhile fun c ↦ c != 58
          (BeginsRefused front ∨ IsRefusedName front) ↔ u.address.IsPrivate
        else (BeginsRefused s ∨ MentionsMetadata (s ++ 64 :: u.addressTail)) ↔ u.address.IsPrivate

end Ipv4Url

/-! ## The check in terms of the refused hosts -/

theorem isDigitOctet_iff (host : Bytes) :
    isDigitOctet host = true ↔
      ascii "172.1." <+: host ∨ ascii "172.2." <+: host ∨ ascii "172.3." <+: host := by
  unfold isDigitOctet
  simp only [Bool.and_eq_true, decide_eq_true_eq, beq_iff_eq, List.isPrefixOf_iff_prefix]
  constructor
  · rintro ⟨⟨⟨⟨rest, rfl⟩, hlow⟩, hhigh⟩, hdot⟩
    match rest, hlow, hhigh, hdot with
    | [], hlow, _, _ => exact absurd hlow (by decide)
    | [_], _, _, hdot =>
        have hzero : (0 : UInt8) = 46 := hdot
        exact absurd hzero (by decide)
    | c :: d :: rest, hlow, hhigh, hdot =>
        have hd : d = 46 := hdot
        have hc : c = 49 ∨ c = 50 ∨ c = 51 := by
          have h49 : 49 ≤ c.toNat := UInt8.le_iff_toNat_le.mp hlow
          have h51 : c.toNat ≤ 51 := UInt8.le_iff_toNat_le.mp hhigh
          simp only [← UInt8.toNat_inj, UInt8.reduceToNat]
          omega
        subst hd
        rcases hc with rfl | rfl | rfl
        · exact .inl ⟨rest, rfl⟩
        · exact .inr (.inl ⟨rest, rfl⟩)
        · exact .inr (.inr ⟨rest, rfl⟩)
  · have hoctet : ∀ c : UInt8, 49 ≤ c → c ≤ 51 → ∀ rest, ascii "172." ++ c :: 46 :: rest = host →
        ((ascii "172." <+: host ∧ 49 ≤ host.getD 4 0) ∧ host.getD 4 0 ≤ 51) ∧
          host.getD 5 0 = 46 := by
      rintro c hlow hhigh rest rfl
      exact ⟨⟨⟨List.prefix_append _ _, hlow⟩, hhigh⟩, rfl⟩
    rintro (⟨rest, hrest⟩ | ⟨rest, hrest⟩ | ⟨rest, hrest⟩)
    · exact hoctet 49 (by decide) (by decide) rest hrest
    · exact hoctet 50 (by decide) (by decide) rest hrest
    · exact hoctet 51 (by decide) (by decide) rest hrest

theorem hostIsPrivateOrMetadata_iff (host : Bytes) :
    hostIsPrivateOrMetadata host = true ↔ BeginsRefused host ∨ IsRefusedName host := by
  unfold hostIsPrivateOrMetadata BeginsRefused IsRefusedName refusedFronts MentionsMetadata
  simp only [Bool.or_eq_true, Bool.and_eq_true, decide_eq_true_eq, isDigitOctet_iff,
    List.isPrefixOf_iff_prefix, CString.strstr_isSome_iff, List.mem_cons, List.not_mem_nil,
    or_false, exists_eq_or_imp, exists_eq_left]
  -- The check asks for the names and for the fronts in another order.
  refine Iff.of_eq ?_
  ac_rfl

/-! ## Comparisons with an address -/

section Host

variable {ip : Ipv4} {tail : Bytes}

theorem isDigit_of_mem_octet {c n : UInt8} (h : c ∈ octet n) : Decimal.isDigit c = true :=
  Decimal.isDigit_of_mem_printNat h

theorem dot_notMem_octet (n : UInt8) : (46 : UInt8) ∉ octet n := fun h ↦
  absurd (isDigit_of_mem_octet h) (by decide)

theorem Ipv4.text_append (ip : Ipv4) (tail : Bytes) :
    ip.text ++ tail = octet ip.a ++ 46 :: (octet ip.b ++
      46 :: (octet ip.c ++ 46 :: (octet ip.d ++ tail))) := by
  simp only [Ipv4.text, List.append_assoc, List.cons_append]

theorem Ipv4.of_mem_text {c : UInt8} (h : c ∈ ip.text) : c = 46 ∨ Decimal.isDigit c = true := by
  simp only [Ipv4.text, List.mem_append, List.mem_cons] at h
  rcases h with h | rfl | h | rfl | h | rfl | h
  · exact .inr (isDigit_of_mem_octet h)
  · exact .inl rfl
  · exact .inr (isDigit_of_mem_octet h)
  · exact .inl rfl
  · exact .inr (isDigit_of_mem_octet h)
  · exact .inl rfl
  · exact .inr (isDigit_of_mem_octet h)

theorem Ipv4.notMem_text {c : UInt8} (hc : c ≠ 46 ∧ Decimal.isDigit c = false) :
    c ∉ ip.text := by
  intro h
  rcases Ipv4.of_mem_text h with hdot | hdigit
  · exact hc.1 hdot
  · rw [hc.2] at hdigit
    exact Bool.false_ne_true hdigit

theorem octet_inj {m n : UInt8} : octet n = octet m ↔ m = n := by
  unfold octet
  rw [Decimal.printNat_injective.eq_iff, UInt8.toNat_inj, eq_comm]

/-- A prefix of one octet. -/
theorem octet_prefix_iff {p : Bytes} {n : UInt8} (hp : p = octet n ++ [46]) :
    p <+: ip.text ++ tail ↔ ip.a = n := by
  rw [hp, Ipv4.text_append,
    List.append_cons_prefix_iff (dot_notMem_octet _) (dot_notMem_octet _),
    and_iff_left List.nil_prefix, octet_inj]

/-- A prefix of two octets. -/
theorem octets_prefix_iff {p : Bytes} {m n : UInt8}
    (hp : p = octet m ++ 46 :: (octet n ++ [46])) :
    p <+: ip.text ++ tail ↔ ip.a = m ∧ ip.b = n := by
  rw [hp, Ipv4.text_append,
    List.append_cons_prefix_iff (dot_notMem_octet _) (dot_notMem_octet _),
    List.append_cons_prefix_iff (dot_notMem_octet _) (dot_notMem_octet _),
    and_iff_left List.nil_prefix, octet_inj, octet_inj]

/-- The metadata service is recognized when nothing is behind its address. -/
theorem text_eq_metadata_iff (htail : tail = [] ∨ tail.head? = some 63) :
    ip.text ++ tail = ascii "169.254.169.254" ↔ ip.IsMetadata ∧ tail = [] := by
  have hmeta : ascii "169.254.169.254" = octet 169 ++
      46 :: (octet 254 ++ 46 :: (octet 169 ++
        46 :: octet 254)) := by decide
  have hlast : octet ip.d ++ tail = octet 254 ↔
      ip.d = 254 ∧ tail = [] := by
    constructor
    · intro h
      have hnil : tail = [] := by
        refine htail.resolve_right fun hquery ↦ ?_
        have hmem : (63 : UInt8) ∈ octet 254 :=
          h ▸ List.mem_append_right _ (List.mem_of_mem_head? hquery)
        exact absurd (isDigit_of_mem_octet hmem) (by decide)
      rw [hnil, List.append_nil] at h
      exact ⟨(octet_inj.mp h).symm, hnil⟩
    · rintro ⟨hd, rfl⟩
      rw [hd, List.append_nil]
  rw [hmeta, Ipv4.text_append,
    List.append_cons_eq_iff (dot_notMem_octet _) (dot_notMem_octet _),
    List.append_cons_eq_iff (dot_notMem_octet _) (dot_notMem_octet _),
    List.append_cons_eq_iff (dot_notMem_octet _) (dot_notMem_octet _), hlast]
  constructor
  · rintro ⟨ha, hb, hc, hd, hnil⟩
    exact ⟨⟨(octet_inj.mp ha).symm, (octet_inj.mp hb).symm,
      (octet_inj.mp hc).symm, hd⟩, hnil⟩
  · rintro ⟨⟨ha, hb, hc, hd⟩, hnil⟩
    rw [ha, hb, hc]
    exact ⟨rfl, rfl, rfl, hd, hnil⟩

/-- An address begins with a digit and is none of the names. -/
theorem exists_cons_text (ip : Ipv4) (tail : Bytes) :
    ∃ c rest, ip.text ++ tail = c :: rest ∧ Decimal.isDigit c = true := by
  obtain ⟨c, s, hs⟩ : ∃ c s, octet ip.a = c :: s :=
    List.exists_cons_of_ne_nil (Decimal.printNat_ne_nil _)
  have hdigit : Decimal.isDigit c = true := by
    refine isDigit_of_mem_octet (n := ip.a) ?_
    rw [hs]
    exact List.mem_cons_self
  rw [Ipv4.text_append, hs]
  exact ⟨c, _, rfl, hdigit⟩

theorem tolower_digit {c : UInt8} (h : Decimal.isDigit c = true) : CString.tolower c = c := by
  unfold CString.tolower
  refine if_neg fun hupper ↦ ?_
  unfold Decimal.isDigit at h
  rw [Bool.and_eq_true, decide_eq_true_eq, decide_eq_true_eq] at h
  have hle : (65 : UInt8) ≤ 57 := UInt8.le_trans hupper.1 h.2
  exact absurd hle (by decide)

theorem text_ne_of_head {b : UInt8} {t : Bytes} (hb : Decimal.isDigit b = false) :
    ip.text ++ tail ≠ b :: t := by
  obtain ⟨c, rest, htext, hdigit⟩ := exists_cons_text ip tail
  rw [htext]
  intro heq
  rw [(List.cons.inj heq).1, hb] at hdigit
  exact Bool.false_ne_true hdigit

theorem strcasecmp_text {b : UInt8} {t : Bytes}
    (hb : Decimal.isDigit (CString.tolower b) = false) :
    strcasecmp (ip.text ++ tail) (b :: t) = false := by
  obtain ⟨c, rest, htext, hdigit⟩ := exists_cons_text ip tail
  unfold strcasecmp
  rw [decide_eq_false_iff_not, htext, List.map_cons, List.map_cons, tolower_digit hdigit]
  intro heq
  rw [(List.cons.inj heq).1, hb] at hdigit
  exact Bool.false_ne_true hdigit

/-- A name is found in the tail only. -/
theorem infix_text_append {name : Bytes} {c : UInt8} (hc : name.head? = some c)
    (hletter : c ≠ 46 ∧ Decimal.isDigit c = false) :
    name <:+: ip.text ++ tail ↔ name <:+: tail := by
  rw [← CString.strstr_isSome_iff,
    CString.strstr_append_of_notMem hc (Ipv4.notMem_text hletter),
    CString.strstr_isSome_iff]

/-- A name without `c` is found in front of the first `c` or behind it. -/
theorem infix_append_cons_iff {c : UInt8} {name : Bytes} (hne : name ≠ []) (hc : c ∉ name)
    {s t : Bytes} : name <:+: s ++ c :: t ↔ name <:+: s ∨ name <:+: t := by
  rw [← CString.strstr_isSome_iff, CString.strstr_append_cons hne hc, Option.isSome_or,
    Option.isSome_map, Bool.or_eq_true, CString.strstr_isSome_iff, CString.strstr_isSome_iff]

theorem mentionsMetadata_text : MentionsMetadata (ip.text ++ tail) ↔ MentionsMetadata tail :=
  and_congr (infix_text_append (c := 109) (by decide) (by decide))
    (infix_text_append (c := 103) (by decide) (by decide))

theorem isRefusedName_text (htail : tail = [] ∨ tail.head? = some 63) :
    IsRefusedName (ip.text ++ tail) ↔ (ip.IsMetadata ∧ tail = []) ∨ MentionsMetadata tail := by
  have hnil : ip.text ++ tail ≠ [] := by
    obtain ⟨c, rest, htext, -⟩ := exists_cons_text ip tail
    rw [htext]
    exact List.cons_ne_nil _ _
  have hlocal : ip.text ++ tail ≠ ascii "localhost" :=
    text_ne_of_head (b := 108) (t := ascii "ocalhost") (by decide)
  have hgoogle : strcasecmp (ip.text ++ tail) (ascii "metadata.google.internal") = false :=
    strcasecmp_text (b := 109) (t := ascii "etadata.google.internal") (by decide)
  have hinstance : strcasecmp (ip.text ++ tail) (ascii "instance-data") = false :=
    strcasecmp_text (b := 105) (t := ascii "nstance-data") (by decide)
  unfold IsRefusedName
  rw [or_iff_right hnil, or_iff_right hlocal, text_eq_metadata_iff htail, hgoogle, hinstance,
    mentionsMetadata_text]
  simp only [Bool.false_eq_true, false_or, or_false]

theorem beginsRefused_text :
    BeginsRefused (ip.text ++ tail) ↔
      ip.a = 127 ∨ ip.a = 10 ∨ (ip.a = 192 ∧ ip.b = 168) ∨
        (ip.a = 172 ∧ ((16 ≤ ip.b ∧ ip.b ≤ 19) ∨ (1 ≤ ip.b ∧ ip.b ≤ 3))) := by
  have h127 : ascii "127." <+: ip.text ++ tail ↔ ip.a = 127 := octet_prefix_iff (by decide)
  have h10 : ascii "10." <+: ip.text ++ tail ↔ ip.a = 10 := octet_prefix_iff (by decide)
  have h192 : ascii "192.168." <+: ip.text ++ tail ↔ ip.a = 192 ∧ ip.b = 168 :=
    octets_prefix_iff (by decide)
  have h172 {p : Bytes} (n : UInt8) (hp : p = octet 172 ++
      46 :: (octet n ++ [46])) : p <+: ip.text ++ tail ↔ ip.a = 172 ∧ ip.b = n :=
    octets_prefix_iff hp
  unfold BeginsRefused refusedFronts
  simp only [List.mem_cons, List.not_mem_nil, or_false, exists_eq_or_imp, exists_eq_left]
  rw [h127, h10, h192, h172 16 (by decide), h172 17 (by decide), h172 18 (by decide),
    h172 19 (by decide), h172 1 (by decide), h172 2 (by decide), h172 3 (by decide)]
  refine or_congr_right (or_congr_right (or_congr_right ?_))
  simp only [← and_or_left]
  refine and_congr_right fun _ ↦ ?_
  simp only [← UInt8.toNat_inj, UInt8.le_iff_toNat_le, UInt8.reduceToNat]
  omega

/-- Nothing in front of an at sign is a name. -/
theorem isRefusedName_userinfo (s : Bytes) :
    IsRefusedName (s ++ 64 :: (ip.text ++ tail)) ↔ MentionsMetadata (s ++ 64 :: tail) := by
  have hmem : (64 : UInt8) ∈ s ++ 64 :: (ip.text ++ tail) :=
    List.mem_append_right s List.mem_cons_self
  have hne {name : Bytes} (hname : (64 : UInt8) ∉ name) :
      s ++ 64 :: (ip.text ++ tail) ≠ name := fun h ↦ hname (h ▸ hmem)
  have hcase {name : Bytes} (hname : (64 : UInt8) ∉ name.map CString.tolower) :
      strcasecmp (s ++ 64 :: (ip.text ++ tail)) name = false := by
    unfold strcasecmp
    rw [decide_eq_false_iff_not]
    exact fun h ↦ hname (h ▸ List.mem_map_of_mem (f := CString.tolower) hmem)
  unfold IsRefusedName
  rw [or_iff_right (hne (by decide)), or_iff_right (hne (by decide)),
    or_iff_right (hne (by decide)), hcase (by decide), hcase (by decide)]
  simp only [Bool.false_eq_true, false_or, or_false]
  have hmetadata : ascii "metadata" <:+: ip.text ++ tail ↔ ascii "metadata" <:+: tail :=
    infix_text_append (c := 109) (by decide) (by decide)
  have hgoogle : ascii "google" <:+: ip.text ++ tail ↔ ascii "google" <:+: tail :=
    infix_text_append (c := 103) (by decide) (by decide)
  unfold MentionsMetadata
  rw [infix_append_cons_iff (by decide) (by decide), infix_append_cons_iff (by decide) (by decide),
    infix_append_cons_iff (by decide) (by decide), infix_append_cons_iff (by decide) (by decide),
    hmetadata, hgoogle]

theorem beginsRefused_userinfo (s t : Bytes) :
    BeginsRefused (s ++ 64 :: t) ↔ BeginsRefused s := by
  have hat : ∀ p, p ∈ refusedFronts → (64 : UInt8) ∉ p := by
    unfold refusedFronts
    simp only [List.forall_mem_cons]
    decide
  unfold BeginsRefused
  exact exists_congr fun p ↦ and_congr_right fun hp ↦ List.prefix_append_cons_iff (hat p hp)

end Host

/-! ## The authority of an address -/

theorem takeWhile_append_of_notMem {c : UInt8} {s : Bytes} (h : c ∉ s) (t : Bytes) :
    (s ++ t).takeWhile (fun b ↦ b != c) = s ++ t.takeWhile fun b ↦ b != c :=
  List.takeWhile_append_of_pos fun _ hb ↦ bne_iff_ne.mpr fun hbc ↦ h (hbc ▸ hb)

theorem slash_notMem_userinfo {userinfo : Option Bytes} (h : ∀ s ∈ userinfo, (47 : UInt8) ∉ s) :
    (47 : UInt8) ∉ userinfo.elim [] fun s ↦ s ++ [64] := by
  cases userinfo with
  | none => exact List.not_mem_nil
  | some s =>
      intro hmem
      rcases List.mem_append.mp hmem with hs | hat
      · exact h s rfl hs
      · exact absurd (List.mem_singleton.mp hat) (by decide)

theorem slash_notMem_port {port : Option Bytes}
    (h : ∀ s ∈ port, ∀ c ∈ s, Decimal.isDigit c = true) :
    (47 : UInt8) ∉ port.elim [] fun s ↦ 58 :: s := by
  cases port with
  | none => exact List.not_mem_nil
  | some s =>
      intro hmem
      rcases List.mem_cons.mp hmem with hcolon | hs
      · exact absurd hcolon (by decide)
      · exact absurd (h s rfl 47 hs) (by decide)

/-- Up to its first slash a path is empty. -/
theorem takeWhile_path {path : Bytes} (h : path = [] ∨ path.head? = some 47) (query : Bytes) :
    (path ++ query).takeWhile (fun c ↦ c != 47) =
      if path = [] then query.takeWhile fun c ↦ c != 47 else [] := by
  by_cases hpath : path = []
  · rw [if_pos hpath, hpath, List.nil_append]
  · obtain ⟨c, rest, rfl⟩ := List.exists_cons_of_ne_nil hpath
    obtain rfl : c = 47 := Option.some_inj.mp (h.resolve_left hpath)
    rw [if_neg hpath]
    rfl

namespace Ipv4Url

variable (u : Ipv4Url)

theorem colon_notMem_scheme : (58 : UInt8) ∉ u.scheme := by
  have hcolon {name : Bytes} (hname : (58 : UInt8) ∉ name.map CString.tolower)
      (h : strcasecmp u.scheme name = true) : (58 : UInt8) ∉ u.scheme := by
    unfold strcasecmp at h
    exact fun hmem ↦ hname (of_decide_eq_true h ▸ List.mem_map_of_mem (f := CString.tolower) hmem)
  exact u.scheme_ok.elim (hcolon (by decide)) (hcolon (by decide))

theorem slash_notMem_userinfoText : (47 : UInt8) ∉ u.userinfoText :=
  slash_notMem_userinfo fun s hs h ↦ (u.userinfo_ok s hs 47 h).2.2.1 rfl

theorem slash_notMem_portText : (47 : UInt8) ∉ u.portText := slash_notMem_port u.port_ok

theorem takeWhile_path_append :
    (u.path ++ u.queryText).takeWhile (fun c ↦ c != 47) = u.authorityTail :=
  takeWhile_path u.path_ok u.queryText

/-- The host that the check copies. -/
theorem takeWhile_authority :
    (u.userinfoText ++ (u.address.text ++ (u.portText ++ (u.path ++ u.queryText)))).takeWhile
      (fun c ↦ c != 47) = u.authorityText := by
  rw [takeWhile_append_of_notMem u.slash_notMem_userinfoText,
    takeWhile_append_of_notMem (Ipv4.notMem_text (by decide)),
    takeWhile_append_of_notMem u.slash_notMem_portText, takeWhile_path_append]
  rfl

theorem scheme_prefix_iff {p name : Bytes} (hname : (58 : UInt8) ∉ name)
    (hp : p = name ++ 58 :: [47, 47]) : p.isPrefixOf u.text = true ↔ u.scheme = name := by
  rw [List.isPrefixOf_iff_prefix, hp]
  unfold text
  rw [show ascii "://" = 58 :: [47, 47] by decide, List.cons_append,
    List.append_cons_prefix_iff hname u.colon_notMem_scheme,
    and_iff_left (List.prefix_append _ _), eq_comm]

theorem safe_text_iff :
    securityMonitorUrlSafeForFetch (some u.text) = false ↔
      (u.scheme ≠ ascii "http" ∧ u.scheme ≠ ascii "https") ∨ 256 ≤ u.authorityText.length ∨
        hostIsPrivateOrMetadata (u.authorityText.takeWhile fun c ↦ c != 58) = true := by
  have hhttp : (ascii "http://").isPrefixOf u.text = true ↔ u.scheme = ascii "http" :=
    u.scheme_prefix_iff (by decide) (by decide)
  have hhttps : (ascii "https://").isPrefixOf u.text = true ↔ u.scheme = ascii "https" :=
    u.scheme_prefix_iff (by decide) (by decide)
  have hne : u.text ≠ [] := by
    unfold text
    exact fun h ↦ absurd (List.append_eq_nil_iff.mp (List.append_eq_nil_iff.mp h).2).1 (by decide)
  have hfound : CString.strstr (ascii "://") u.text = some (ascii "://" ++ (u.userinfoText ++
      (u.address.text ++ (u.portText ++ (u.path ++ u.queryText))))) := by
    unfold text
    rw [CString.strstr_append_of_notMem (c := 58) (by decide) u.colon_notMem_scheme]
    exact CString.strstr_of_isPrefix (List.prefix_append _ _)
  unfold securityMonitorUrlSafeForFetch
  by_cases hscheme : u.scheme = ascii "http" ∨ u.scheme = ascii "https"
  · have hknown : ¬ (!(ascii "http://").isPrefixOf u.text &&
        !(ascii "https://").isPrefixOf u.text) = true := by
      rw [Bool.and_eq_true, Bool.not_eq_true', Bool.not_eq_true', ← Bool.not_eq_true,
        ← Bool.not_eq_true, hhttp, hhttps]
      exact fun h ↦ hscheme.elim h.1 h.2
    have hnot : ¬ (u.scheme ≠ ascii "http" ∧ u.scheme ≠ ascii "https") :=
      fun h ↦ hscheme.elim h.1 h.2
    have hhost : (((ascii "://" ++ (u.userinfoText ++ (u.address.text ++ (u.portText ++
        (u.path ++ u.queryText))))).drop 3).takeWhile fun c ↦ c != 47) = u.authorityText :=
      u.takeWhile_authority
    simp only [if_neg hne, if_neg hknown, hfound, hhost]
    rw [urlHostSize, or_iff_right hnot]
    by_cases hlong : 256 ≤ u.authorityText.length
    · rw [if_pos hlong]
      exact iff_of_true rfl (.inl hlong)
    · rw [if_neg hlong, or_iff_right hlong, Bool.not_eq_false']
  · obtain ⟨hnothttp, hnothttps⟩ := not_or.mp hscheme
    have hunknown : (!(ascii "http://").isPrefixOf u.text &&
        !(ascii "https://").isPrefixOf u.text) = true := by
      rw [Bool.and_eq_true, Bool.not_eq_true', Bool.not_eq_true', ← Bool.not_eq_true,
        ← Bool.not_eq_true, hhttp, hhttps]
      exact ⟨hnothttp, hnothttps⟩
    simp only [if_neg hne, if_pos hunknown]
    exact iff_of_true trivial (.inl ⟨hnothttp, hnothttps⟩)

/-- The text up to the first colon, from the address on. -/
theorem takeWhile_address :
    (u.address.text ++ (u.portText ++ u.authorityTail)).takeWhile (fun c ↦ c != 58) =
      u.address.text ++ u.addressTail := by
  rw [takeWhile_append_of_notMem (Ipv4.notMem_text (by decide))]
  congr 1
  unfold addressTail portText
  cases u.port with
  | none => rw [if_pos rfl]; rfl
  | some s =>
      rw [if_neg (Option.some_ne_none s)]
      rfl

theorem front_of_none (h : u.userinfo = none) :
    u.authorityText.takeWhile (fun c ↦ c != 58) = u.address.text ++ u.addressTail := by
  have htext : u.authorityText = u.address.text ++ (u.portText ++ u.authorityTail) := by
    unfold authorityText userinfoText
    rw [h]
    rfl
  rw [htext, takeWhile_address]

theorem front_of_some {s : Bytes} (h : u.userinfo = some s) :
    u.authorityText.takeWhile (fun c ↦ c != 58) =
      if 58 ∈ s then s.takeWhile fun c ↦ c != 58
      else s ++ 64 :: (u.address.text ++ u.addressTail) := by
  have htext : u.authorityText =
      s ++ 64 :: (u.address.text ++ (u.portText ++ u.authorityTail)) := by
    unfold authorityText userinfoText
    rw [h, Option.elim_some, List.append_assoc, List.singleton_append]
  rw [htext]
  by_cases hcolon : 58 ∈ s
  · have hshort : ¬ (s.takeWhile fun c ↦ c != 58).length = s.length := by
      intro hlen
      have hself := (List.takeWhile_prefix (l := s) fun c ↦ c != 58).eq_of_length hlen
      exact absurd (List.takeWhile_eq_self_iff.mp hself 58 hcolon) (by decide)
    rw [if_pos hcolon, List.takeWhile_append, if_neg hshort]
  · rw [if_neg hcolon, takeWhile_append_of_notMem hcolon,
      List.takeWhile_cons_of_pos (by decide), takeWhile_address]

theorem addressTail_head : u.addressTail = [] ∨ u.addressTail.head? = some 63 := by
  unfold addressTail authorityTail queryText
  cases u.query with
  | none => simp
  | some s =>
      by_cases hport : u.port = none
      · by_cases hpath : u.path = []
        · rw [if_pos hport, if_pos hpath]
          exact .inr rfl
        · rw [if_pos hport, if_neg hpath]
          exact .inl rfl
      · rw [if_neg hport]
        exact .inl rfl

/-- The decisions on the address alone. -/
theorem refused_iff_isPrivate_iff {ip : Ipv4} {tail : Bytes} :
    (((ip.a = 127 ∨ ip.a = 10 ∨ (ip.a = 192 ∧ ip.b = 168) ∨
        (ip.a = 172 ∧ ((16 ≤ ip.b ∧ ip.b ≤ 19) ∨ (1 ≤ ip.b ∧ ip.b ≤ 3)))) ∨
        (ip.IsMetadata ∧ tail = [])) ↔ ip.IsPrivate) ↔
      ¬ (ip.a = 172 ∧ ((1 ≤ ip.b ∧ ip.b ≤ 3) ∨ (20 ≤ ip.b ∧ ip.b ≤ 31))) ∧
        ¬ (ip.IsMetadata ∧ tail ≠ []) := by
  unfold Ipv4.IsPrivate
  by_cases ha : ip.a = 172
  · have hservice : ¬ ip.IsMetadata := fun h ↦ absurd (ha.symm.trans h.1) (by decide)
    have hother : ¬ ip.a = 10 ∧ ¬ ip.a = 127 ∧ ¬ ip.a = 192 := by
      rw [ha]
      decide
    simp only [hother, hservice, false_and, false_or, or_false, not_false_eq_true, and_true]
    simp only [ha, true_and, UInt8.le_iff_toNat_le, UInt8.reduceToNat]
    omega
  · simp only [ha, false_and, or_false, not_false_eq_true, true_and]
    by_cases hservice : ip.IsMetadata
    · have h127 : ¬ ip.a = 127 := fun h ↦ absurd (hservice.1.symm.trans h) (by decide)
      have h10 : ¬ ip.a = 10 := fun h ↦ absurd (hservice.1.symm.trans h) (by decide)
      have h192 : ¬ ip.a = 192 := fun h ↦ absurd (hservice.1.symm.trans h) (by decide)
      simp only [hservice, h127, h10, h192, true_and, false_and, false_or, or_false, iff_true,
        ne_eq, not_not]
    · simp only [hservice, false_and, or_false, false_or, not_false_eq_true]
      exact iff_true_intro or_left_comm

theorem none_checked_iff (h : u.userinfo = none) :
    (hostIsPrivateOrMetadata (u.authorityText.takeWhile fun c ↦ c != 58) = true ↔
        u.address.IsPrivate) ↔
      if MentionsMetadata u.addressTail then u.address.IsPrivate
      else
        ¬ (u.address.a = 172 ∧
          ((1 ≤ u.address.b ∧ u.address.b ≤ 3) ∨ (20 ≤ u.address.b ∧ u.address.b ≤ 31))) ∧
        ¬ (u.address.IsMetadata ∧ u.addressTail ≠ []) := by
  rw [u.front_of_none h, hostIsPrivateOrMetadata_iff, beginsRefused_text,
    isRefusedName_text u.addressTail_head]
  by_cases hmentions : MentionsMetadata u.addressTail
  · rw [if_pos hmentions]
    exact ⟨fun hiff ↦ hiff.mp (.inr (.inr hmentions)),
      fun hprivate ↦ iff_of_true (.inr (.inr hmentions)) hprivate⟩
  · rw [if_neg hmentions, or_iff_left hmentions]
    exact refused_iff_isPrivate_iff

theorem some_checked_iff {s : Bytes} (h : u.userinfo = some s) :
    hostIsPrivateOrMetadata (u.authorityText.takeWhile fun c ↦ c != 58) = true ↔
      if 58 ∈ s then
        let front := s.takeWhile fun c ↦ c != 58
        BeginsRefused front ∨ IsRefusedName front
      else BeginsRefused s ∨ MentionsMetadata (s ++ 64 :: u.addressTail) := by
  rw [u.front_of_some h, hostIsPrivateOrMetadata_iff]
  by_cases hcolon : 58 ∈ s
  · rw [if_pos hcolon, if_pos hcolon]
  · rw [if_neg hcolon, if_neg hcolon, beginsRefused_userinfo, isRefusedName_userinfo]

end Ipv4Url

/-- The check refuses exactly the private addresses and the metadata service on the
URLs it reads right. -/
theorem securityMonitorUrlSafeForFetch_iff (u : Ipv4Url) :
    (securityMonitorUrlSafeForFetch (some u.text) = false ↔ u.address.IsPrivate) ↔
      u.CheckedRight := by
  rw [u.safe_text_iff]
  unfold Ipv4Url.CheckedRight
  by_cases hrefused : (u.scheme ≠ ascii "http" ∧ u.scheme ≠ ascii "https") ∨
      256 ≤ u.authorityText.length
  · rw [if_pos hrefused, ← or_assoc]
    exact ⟨fun hiff ↦ hiff.mp (.inl hrefused), fun hprivate ↦ iff_of_true (.inl hrefused) hprivate⟩
  · rw [if_neg hrefused, ← or_assoc, or_iff_right hrefused]
    cases hinfo : u.userinfo with
    | none => exact u.none_checked_iff hinfo
    | some s =>
        rw [u.some_checked_iff hinfo]
        by_cases hcolon : 58 ∈ s
        · simp only [if_pos hcolon]
        · simp only [if_neg hcolon]

/-- The last address of 172.16.0.0/12, which is fetched. -/
def fetchedPrivate : Ipv4Url where
  scheme := ascii "http"
  userinfo := none
  address := ⟨172, 31, 255, 255⟩
  port := none
  path := ascii "/"
  query := none
  scheme_ok := .inl rfl
  userinfo_ok := fun _ h ↦ absurd h (Option.not_mem_none _)
  port_ok := fun _ h ↦ absurd h (Option.not_mem_none _)
  path_ok := .inr rfl
  path_bytes := fun c h ↦ by
    rw [List.mem_singleton.mp h]
    decide
  query_ok := fun _ h ↦ absurd h (Option.not_mem_none _)

/-- A private address passes the check. -/
theorem private_address_fetched :
    fetchedPrivate.text = ascii "http://172.31.255.255/" ∧
      fetchedPrivate.address.IsPrivate ∧
      securityMonitorUrlSafeForFetch (some fetchedPrivate.text) = true := by
  decide

end DoctorClaw
