import DoctorClaw.Tools.Services
import DoctorClaw.SecurityMonitor.UrlSafety

/-!
# The domains that may be requested

`is_domain_allowed` looks for an allowed name anywhere in the authority of a
URL, up to its first colon.  Whatever stands in front of the host or behind it
is searched as well, and the comparison with private addresses looks at the
front of the authority, userinfo included.
-/

namespace DoctorClaw

/-! ## Hosts -/

/-- An entry of the list, or a subdomain of one. -/
def IsAllowedHost (host : Bytes) : Prop :=
  ∃ domain ∈ allowedDomains, host = domain ∨ 46 :: domain <:+ host

/-- The private addresses, those of the local host and of the local link, and
0.0.0.0. -/
def Ipv4.IsInternal (ip : Ipv4) : Prop :=
  ip.a = 10 ∨ ip.a = 127 ∨ (ip.a = 172 ∧ 16 ≤ ip.b ∧ ip.b ≤ 31) ∨ (ip.a = 192 ∧ ip.b = 168) ∨
    (ip.a = 169 ∧ ip.b = 254) ∨ (ip.a = 0 ∧ ip.b = 0 ∧ ip.c = 0 ∧ ip.d = 0)

def IsPrivateHost (host : Bytes) : Prop :=
  host = ascii "localhost" ∨ host = ascii "[::1]" ∨ ∃ ip : Ipv4, ip.IsInternal ∧ host = ip.text

/-- A byte of a name or an address, which ends neither the host nor what stands
in front of it. -/
def isHostByte (c : UInt8) : Bool :=
  c ≠ 0 && c ≠ 35 && c ≠ 47 && c ≠ 58 && c ≠ 63 && c ≠ 64 && c ≠ 91 && c ≠ 93

structure HostUrl where
  scheme : Bytes
  userinfo : Option Bytes
  host : Bytes
  port : Option Bytes
  path : Bytes
  query : Option Bytes
  scheme_ok : ∀ c ∈ scheme, isHostByte c = true
  userinfo_ok : ∀ s ∈ userinfo, ∀ c ∈ s, c ≠ 0 ∧ c ≠ 35 ∧ c ≠ 47 ∧ c ≠ 63 ∧ c ≠ 64
  /-- A name, an address, or an address with colons in brackets. -/
  host_ok : (∀ c ∈ host, isHostByte c = true) ∨
    ∃ s, host = 91 :: (s ++ [93]) ∧ ∀ c ∈ s, isHostByte c = true ∨ c = 58
  port_ok : ∀ s ∈ port, ∀ c ∈ s, Decimal.isDigit c = true
  path_ok : path = [] ∨ path.head? = some 47
  path_bytes : ∀ c ∈ path, c ≠ 0 ∧ c ≠ 35 ∧ c ≠ 63
  query_ok : ∀ s ∈ query, ∀ c ∈ s, c ≠ 0 ∧ c ≠ 35

namespace HostUrl

variable (u : HostUrl)

def userinfoText : Bytes := u.userinfo.elim [] fun s ↦ s ++ [64]

def portText : Bytes := u.port.elim [] fun s ↦ 58 :: s

def queryText : Bytes := u.query.elim [] fun s ↦ 63 :: s

def text : Bytes :=
  u.scheme ++ (ascii "://" ++
    (u.userinfoText ++ (u.host ++ (u.portText ++ (u.path ++ u.queryText)))))

/-- A query directly behind the authority, up to its first slash. -/
def directQuery : Bytes :=
  if u.path = [] then u.queryText.takeWhile fun c ↦ c != 47 else []

def authority : Bytes := u.userinfoText ++ (u.host ++ (u.portText ++ u.directQuery))

/-- As much of the authority as fits into the buffer, or nothing at all if a
slash comes behind more than that. -/
def storedAuthority : Bytes :=
  if 47 ∈ u.path ++ u.queryText then if u.authority.length < 256 then u.authority else []
  else u.authority.take 255

/-- The authority up to its first colon. -/
def front : Bytes := u.storedAuthority.takeWhile fun c ↦ decide (c ≠ 58)

/-- How much of the authority is searched. -/
def reach : ℕ := u.front.length

/-- What is searched of the userinfo, of the host and of a query directly behind
it. -/
def searched : List Bytes :=
  [u.userinfoText.take u.reach, u.host.take (u.reach - u.userinfoText.length),
    u.directQuery.take (u.reach - u.userinfoText.length - u.host.length - u.portText.length)]

/-- What stands first in the authority, as far as it is searched. -/
def firstSearched : Bytes := (u.userinfo.getD u.host).take u.reach

end HostUrl

def NamesDomain (s : Bytes) : Prop := ∃ domain ∈ allowedDomains, domain <:+: s

/-! ## What is compared -/

theorem isPrivateIp_iff {host : Bytes} :
    isPrivateIp host = true ↔ ∃ p ∈ privateIpPatterns, p <+: host := by
  rw [isPrivateIp, List.any_eq_true]
  exact exists_congr fun p ↦ and_congr_right fun _ ↦ decide_eq_true_iff

theorem isDomainAllowed_of_urlHost {url host : Bytes} (h : urlHost url = some host) :
    isDomainAllowed url = true ↔ isPrivateIp host = false ∧ NamesDomain host := by
  rw [isDomainAllowed, h]
  dsimp only
  rw [Bool.and_eq_true, Bool.not_eq_true', List.any_eq_true]
  exact and_congr_right fun _ ↦ exists_congr fun domain ↦ and_congr_right fun _ ↦
    CString.strstr_isSome_iff

theorem urlHost_append {scheme : Bytes} (hscheme : (58 : UInt8) ∉ scheme) (rest : Bytes) :
    urlHost (scheme ++ (ascii "://" ++ rest)) =
      some ((if 47 ∈ rest then
          if (rest.takeWhile fun c ↦ c != 47).length < 256 then
            rest.takeWhile fun c ↦ c != 47
          else []
        else rest.take 255).takeWhile fun c ↦ decide (c ≠ 58)) := by
  have hfound : CString.strstr (ascii "://") (scheme ++ (ascii "://" ++ rest)) =
      some (ascii "://" ++ rest) := by
    rw [CString.strstr_append_of_notMem (c := 58) (by decide) hscheme]
    exact CString.strstr_of_isPrefix (List.prefix_append _ _)
  have hdrop : (ascii "://" ++ rest).drop 3 = rest := rfl
  rw [urlHost, hfound, Option.map_some, Option.some.injEq, hdrop]
  by_cases hslash : 47 ∈ rest
  · obtain ⟨s, t, rfl, hs⟩ := List.eq_append_cons_of_mem hslash
    have hlen : (s ++ 47 :: t).length - (47 :: t).length = s.length := by
      rw [List.length_append, Nat.add_sub_cancel]
    have hfront : (s ++ 47 :: t).takeWhile (fun c ↦ c != 47) = s := by
      rw [takeWhile_append_of_notMem hs, List.takeWhile_cons_of_neg (by decide), List.append_nil]
    simp only [CString.strchr_append hs, hlen, if_pos hslash, hfront, List.take_left]
  · simp only [CString.strchr_eq_none hslash, if_neg hslash]

namespace HostUrl

variable (u : HostUrl)

theorem colon_notMem_scheme : (58 : UInt8) ∉ u.scheme := fun h ↦
  absurd (u.scheme_ok 58 h) (by decide)

theorem slash_notMem_host : (47 : UInt8) ∉ u.host := by
  intro hmem
  rcases u.host_ok with h | ⟨s, hs, h⟩
  · exact absurd (h 47 hmem) (by decide)
  · rw [hs] at hmem
    rcases List.mem_cons.mp hmem with hopen | hmem
    · exact absurd hopen (by decide)
    · rcases List.mem_append.mp hmem with hinner | hclose
      · exact absurd (h 47 hinner) (by decide)
      · exact absurd (List.mem_singleton.mp hclose) (by decide)

/-- What is in front of the first slash. -/
theorem takeWhile_authority :
    (u.userinfoText ++ (u.host ++ (u.portText ++ (u.path ++ u.queryText)))).takeWhile
      (fun c ↦ c != 47) = u.authority := by
  have huserinfo : (47 : UInt8) ∉ u.userinfoText :=
    slash_notMem_userinfo fun s hs h ↦ (u.userinfo_ok s hs 47 h).2.2.1 rfl
  have hport : (47 : UInt8) ∉ u.portText := slash_notMem_port u.port_ok
  rw [takeWhile_append_of_notMem huserinfo, takeWhile_append_of_notMem u.slash_notMem_host,
    takeWhile_append_of_notMem hport, takeWhile_path u.path_ok]
  rfl

theorem slash_mem_iff :
    47 ∈ u.userinfoText ++ (u.host ++ (u.portText ++ (u.path ++ u.queryText))) ↔
      47 ∈ u.path ++ u.queryText := by
  have huserinfo : (47 : UInt8) ∉ u.userinfoText :=
    slash_notMem_userinfo fun s hs h ↦ (u.userinfo_ok s hs 47 h).2.2.1 rfl
  have hport : (47 : UInt8) ∉ u.portText := slash_notMem_port u.port_ok
  rw [List.mem_append, or_iff_right huserinfo, List.mem_append, or_iff_right u.slash_notMem_host,
    List.mem_append, or_iff_right hport]

theorem urlHost_text : urlHost u.text = some u.front := by
  unfold text front storedAuthority
  rw [urlHost_append u.colon_notMem_scheme, u.takeWhile_authority]
  by_cases hslash : 47 ∈ u.path ++ u.queryText
  · rw [if_pos hslash, if_pos (u.slash_mem_iff.mpr hslash)]
  · have hnot := mt u.slash_mem_iff.mp hslash
    have hall : u.userinfoText ++ (u.host ++ (u.portText ++ (u.path ++ u.queryText))) =
        u.authority := by
      rw [← u.takeWhile_authority]
      refine (List.takeWhile_eq_self_iff.mpr fun c hc ↦ ?_).symm
      rw [bne_iff_ne]
      exact fun h ↦ hnot (h ▸ hc)
    rw [if_neg hslash, if_neg hnot, hall]

/-! ### The parts that are searched -/

theorem front_eq_take : u.front = u.authority.take u.reach := by
  refine List.prefix_iff_eq_take.mp ((List.takeWhile_prefix _).trans ?_)
  unfold storedAuthority
  split_ifs
  · exact List.prefix_rfl
  · exact List.nil_prefix
  · exact List.take_prefix _ _

theorem colon_notMem_front : (58 : UInt8) ∉ u.front := fun h ↦
  absurd (List.mem_takeWhile_imp h) (by decide)

/-- Nothing is searched behind a port. -/
theorem reach_le_of_port (hport : u.portText ≠ []) :
    u.reach ≤ u.userinfoText.length + u.host.length := by
  obtain ⟨digits, hdigits⟩ : ∃ digits, u.portText = 58 :: digits := by
    unfold portText at hport ⊢
    cases hsome : u.port with
    | none => exact absurd (by rw [hsome]; rfl) hport
    | some digits => exact ⟨digits, rfl⟩
  by_contra hlong
  refine u.colon_notMem_front ?_
  have hauthority : u.authority =
      u.userinfoText ++ u.host ++ 58 :: (digits ++ u.directQuery) := by
    rw [authority, hdigits, List.append_assoc, List.cons_append]
  obtain ⟨k, hk⟩ : ∃ k, u.reach - (u.userinfoText ++ u.host).length = k + 1 :=
    Nat.exists_eq_succ_of_ne_zero (by rw [List.length_append]; omega)
  rw [u.front_eq_take, hauthority, List.take_append, hk, List.take_succ_cons]
  exact List.mem_append_right _ List.mem_cons_self

theorem head?_directQuery : ∀ c ∈ u.directQuery.head?, c = 63 := by
  unfold directQuery
  split_ifs
  · unfold queryText
    cases u.query with
    | none => rintro c ⟨⟩
    | some s =>
        rintro c hc
        exact (Option.some.inj hc).symm
  · rintro c ⟨⟩

theorem head?_portText_append : ∀ c ∈ (u.portText ++ u.directQuery).head?, c = 58 ∨ c = 63 := by
  unfold portText
  cases u.port with
  | none => exact fun c hc ↦ .inr (u.head?_directQuery c hc)
  | some digits => exact fun c hc ↦ .inl (Option.some.inj hc).symm

end HostUrl

/-- No entry has one of the bytes between the parts. -/
theorem separator_notMem_domain {domain : Bytes} (hdomain : domain ∈ allowedDomains) {c : UInt8}
    (hc : c = 58 ∨ c = 63 ∨ c = 64) : c ∉ domain := by
  have hall : ∀ domain ∈ allowedDomains, (58 : UInt8) ∉ domain ∧ (63 : UInt8) ∉ domain ∧
      (64 : UInt8) ∉ domain := by decide
  obtain ⟨hcolon, hquestion, hat⟩ := hall domain hdomain
  rcases hc with rfl | rfl | rfl
  · exact hcolon
  · exact hquestion
  · exact hat

theorem not_namesDomain_nil : ¬ NamesDomain [] := by
  rintro ⟨domain, hdomain, hoccurs⟩
  rw [List.infix_nil] at hoccurs
  rw [hoccurs] at hdomain
  revert hdomain
  decide

/-- An entry occurs on one side of a byte between the parts. -/
theorem namesDomain_take_append {s t : Bytes} (n : ℕ)
    (h : (∀ c ∈ s.getLast?, c = 64) ∨ ∀ c ∈ t.head?, c = 58 ∨ c = 63) :
    NamesDomain ((s ++ t).take n) ↔
      NamesDomain (s.take n) ∨ NamesDomain (t.take (n - s.length)) := by
  by_cases hshort : n ≤ s.length
  · rw [List.take_append_of_le_length hshort, Nat.sub_eq_zero_of_le hshort, List.take_zero,
      or_iff_left not_namesDomain_nil]
  · obtain ⟨k, hk⟩ : ∃ k, n - s.length = k + 1 := Nat.exists_eq_succ_of_ne_zero (by omega)
    rw [List.take_append, List.take_of_length_le (by omega), hk]
    unfold NamesDomain
    rw [← exists_or]
    refine exists_congr fun domain ↦ ?_
    rw [← and_or_left]
    refine and_congr_right fun hdomain ↦ List.infix_append_iff_of_separated (h.imp ?_ ?_)
    · exact fun hlast c hc ↦ separator_notMem_domain hdomain (.inr (.inr (hlast c hc)))
    · intro hhead c hc
      cases t with
      | nil => cases hc
      | cons b t =>
          rcases hhead c hc with hcolon | hquestion
          · exact separator_notMem_domain hdomain (.inl hcolon)
          · exact separator_notMem_domain hdomain (.inr (.inl hquestion))

/-- Where an entry occurs in the text that is searched. -/
theorem HostUrl.namesDomain_front_iff (u : HostUrl) :
    NamesDomain u.front ↔ ∃ part ∈ u.searched, NamesDomain part := by
  have huserinfo : ∀ c ∈ u.userinfoText.getLast?, c = 64 := by
    unfold userinfoText
    cases u.userinfo with
    | none => rintro c ⟨⟩
    | some s =>
        intro c hc
        rw [Option.elim_some, List.getLast?_concat] at hc
        exact (Option.some.inj hc).symm
  have hport :
      ¬ NamesDomain (u.portText.take (u.reach - u.userinfoText.length - u.host.length)) := by
    by_cases hnone : u.portText = []
    · rw [hnone, List.take_nil]
      exact not_namesDomain_nil
    · have hle := u.reach_le_of_port hnone
      rw [show u.reach - u.userinfoText.length - u.host.length = 0 by omega, List.take_zero]
      exact not_namesDomain_nil
  rw [u.front_eq_take, HostUrl.authority, namesDomain_take_append _ (.inl huserinfo),
    namesDomain_take_append _ (.inr u.head?_portText_append),
    namesDomain_take_append _ (.inr fun c hc ↦ .inr (u.head?_directQuery c hc)),
    or_iff_right hport, HostUrl.searched]
  simp only [List.mem_cons, List.not_mem_nil, or_false, exists_eq_or_imp, exists_eq_left]

/-- What stands first begins like a private address. -/
theorem HostUrl.isPrivateIp_front_iff (u : HostUrl) :
    isPrivateIp u.front = true ↔ isPrivateIp u.firstSearched = true := by
  rw [isPrivateIp_iff, isPrivateIp_iff]
  refine exists_congr fun p ↦ and_congr_right fun hp ↦ ⟨fun hfront ↦ ?_, fun hfirst ↦ ?_⟩
  · have hpatterns : ∀ p ∈ privateIpPatterns, (63 : UInt8) ∉ p ∧ (64 : UInt8) ∉ p := by decide
    obtain ⟨hquestion, hat⟩ := hpatterns p hp
    have hcolon : (58 : UInt8) ∉ p := fun h ↦ u.colon_notMem_front (hfront.subset h)
    rw [u.front_eq_take, List.prefix_take_iff, HostUrl.authority, HostUrl.userinfoText] at hfront
    rw [HostUrl.firstSearched, List.prefix_take_iff]
    refine ⟨?_, hfront.2⟩
    cases huserinfo : u.userinfo with
    | none =>
        rw [huserinfo] at hfront
        refine List.prefix_of_prefix_append (fun c hc ↦ ?_) hfront.1
        rcases u.head?_portText_append c hc with rfl | rfl
        · exact hcolon
        · exact hquestion
    | some s =>
        rw [huserinfo, Option.elim_some, List.append_assoc] at hfront
        refine List.prefix_of_prefix_append (fun c hc ↦ ?_) hfront.1
        rw [← Option.some.inj hc]
        exact hat
  · refine hfirst.trans ?_
    rw [u.front_eq_take, HostUrl.firstSearched]
    refine List.IsPrefix.take ?_ _
    rw [HostUrl.authority, HostUrl.userinfoText]
    cases u.userinfo with
    | none => exact List.prefix_append _ _
    | some s => exact (List.prefix_append _ _).trans (List.prefix_append _ _)

/-! ## Private hosts -/

theorem isPrivateIp_of_isPrefix {s t : Bytes} (hst : s <+: t) (hs : isPrivateIp s = true) :
    isPrivateIp t = true := by
  obtain ⟨p, hp, hps⟩ := isPrivateIp_iff.mp hs
  exact isPrivateIp_iff.mpr ⟨p, hp, hps.trans hst⟩

theorem Ipv4.IsInternal.isPrivateIp_text {ip : Ipv4} (h : ip.IsInternal) :
    isPrivateIp ip.text = true := by
  have hone : octet ip.a ++ [46] <+: ip.text := by
    rw [Ipv4.text, List.prefix_append_right_inj]
    exact List.prefix_append [46] _
  have htwo : octet ip.a ++ 46 :: (octet ip.b ++ [46]) <+: ip.text := by
    rw [Ipv4.text, List.prefix_append_right_inj, List.cons_prefix_cons,
      List.prefix_append_right_inj]
    exact ⟨rfl, List.prefix_append [46] _⟩
  rcases h with ha | ha | ⟨ha, hlow, hhigh⟩ | ⟨ha, hb⟩ | ⟨ha, hb⟩ | ⟨ha, hb, hc, hd⟩
  · exact isPrivateIp_of_isPrefix (ha ▸ hone) (by decide)
  · exact isPrivateIp_of_isPrefix (ha ▸ hone) (by decide)
  · have hoctets : ∀ n < 32, 16 ≤ n →
        isPrivateIp (octet 172 ++ 46 :: (Decimal.printNat n ++ [46])) = true := by decide
    rw [ha] at htwo
    apply isPrivateIp_of_isPrefix htwo
    apply hoctets
    · exact Nat.lt_succ_of_le (UInt8.le_iff_toNat_le.mp hhigh)
    · exact UInt8.le_iff_toNat_le.mp hlow
  · rw [ha, hb] at htwo
    exact isPrivateIp_of_isPrefix htwo (by decide)
  · rw [ha, hb] at htwo
    exact isPrivateIp_of_isPrefix htwo (by decide)
  · rw [Ipv4.text, ha, hb, hc, hd]
    decide

/-- An allowed host that is private begins like a private address. -/
theorem IsPrivateHost.isPrivateIp {host : Bytes} (hprivate : IsPrivateHost host)
    (hallowed : IsAllowedHost host) : isPrivateIp host = true ∧ (58 : UInt8) ∉ host := by
  rcases hprivate with rfl | rfl | ⟨ip, hinternal, rfl⟩
  · decide
  · exfalso
    revert hallowed
    unfold IsAllowedHost
    decide
  · exact ⟨hinternal.isPrivateIp_text, Ipv4.notMem_text (by decide)⟩

/-- A private front of the authority is compared as it is. -/
theorem HostUrl.isPrivateIp_front (u : HostUrl) {host : Bytes} (hfront : host <+: u.authority)
    (hcolon : (58 : UInt8) ∉ host) (hprivate : isPrivateIp host = true) :
    isPrivateIp u.front = true ∨ ¬ NamesDomain u.front := by
  obtain ⟨p, hp, hhost⟩ := isPrivateIp_iff.mp hprivate
  have hlen : p.length ≤ 255 := by
    have hall : ∀ p ∈ privateIpPatterns, p.length ≤ 255 := by decide
    exact hall p hp
  have hstored : u.storedAuthority = [] ∨ p <+: u.storedAuthority := by
    unfold storedAuthority
    split_ifs
    · exact .inr (hhost.trans hfront)
    · exact .inl rfl
    · exact .inr (List.prefix_take_iff.mpr ⟨hhost.trans hfront, hlen⟩)
  unfold front
  rcases hstored with hnil | ⟨t, ht⟩
  · rw [hnil]
    exact .inr not_namesDomain_nil
  · rw [← ht, List.takeWhile_append_of_pos]
    · exact .inl (isPrivateIp_iff.mpr ⟨p, hp, List.prefix_append _ _⟩)
    · intro c hc
      rw [decide_eq_true_iff]
      exact fun h ↦ hcolon (h ▸ hhost.subset hc)

/-! ## Which hosts are requested -/

/-- What stands first, userinfo or host, begins like a private address, or no entry
occurs in what is searched of the userinfo, the host and a query directly behind
it, or the host is allowed and, behind userinfo, not private. -/
def HostUrl.ReadRight (u : HostUrl) : Prop :=
  isPrivateIp u.firstSearched = true ∨ (∀ part ∈ u.searched, ¬ NamesDomain part) ∨
    (IsAllowedHost u.host ∧ (u.userinfo = none ∨ ¬ IsPrivateHost u.host))

theorem allowed_host_is_listed_iff (u : HostUrl) :
    (isDomainAllowed u.text = true → IsAllowedHost u.host ∧ ¬ IsPrivateHost u.host) ↔
      u.ReadRight := by
  have hnowhere : ¬ NamesDomain u.front ↔ ∀ part ∈ u.searched, ¬ NamesDomain part := by
    rw [u.namesDomain_front_iff]
    push Not
    exact Iff.rfl
  rw [isDomainAllowed_of_urlHost u.urlHost_text, HostUrl.ReadRight, ← u.isPrivateIp_front_iff,
    ← hnowhere]
  constructor
  · intro h
    by_cases hprivate : isPrivateIp u.front = true
    · exact .inl hprivate
    by_cases hnames : NamesDomain u.front
    · obtain ⟨hallowed, hpublic⟩ := h ⟨Bool.eq_false_iff.mpr hprivate, hnames⟩
      exact .inr (.inr ⟨hallowed, .inr hpublic⟩)
    · exact .inr (.inl hnames)
  · rintro (hprivate | hnames | ⟨hallowed, hhost⟩) ⟨hfront, hnamed⟩
    · rw [hprivate] at hfront
      cases hfront
    · exact absurd hnamed hnames
    · refine ⟨hallowed, fun hprivate ↦ ?_⟩
      have huserinfo := hhost.resolve_right (not_not.mpr hprivate)
      have hbegins : u.host <+: u.authority := by
        rw [HostUrl.authority, HostUrl.userinfoText, huserinfo]
        exact List.prefix_append _ _
      obtain ⟨hip, hcolon⟩ := hprivate.isPrivateIp hallowed
      rcases u.isPrivateIp_front hbegins hcolon hip with h | h
      · rw [h] at hfront
        cases hfront
      · exact h hnamed

/-- A host that only begins with an allowed domain. -/
theorem exists_lookAlike :
    ∃ u : HostUrl, u.host = ascii "github.com.evil.com" ∧
      u.text = ascii "http://github.com.evil.com/" := by
  have hnone {P : Bytes → Prop} : ∀ s ∈ (none : Option Bytes), P s := by
    rintro s ⟨⟩
  have hpath : ∀ c ∈ ascii "/", c ≠ 0 ∧ c ≠ 35 ∧ c ≠ 63 := by
    intro c hc
    rw [List.mem_singleton.mp hc]
    decide
  exact ⟨⟨ascii "http", none, ascii "github.com.evil.com", none, ascii "/", none,
    List.all_eq_true.mp rfl, hnone, .inl (List.all_eq_true.mp rfl), hnone, .inr rfl, hpath,
    hnone⟩, rfl, rfl⟩

/-- It is requested. -/
theorem allowed_host_is_not_listed :
    ¬ ∀ u : HostUrl, isDomainAllowed u.text = true →
      IsAllowedHost u.host ∧ ¬ IsPrivateHost u.host := by
  intro h
  obtain ⟨u, hhost, htext⟩ := exists_lookAlike
  have hallowed : IsAllowedHost u.host := by
    refine (h u ?_).1
    rw [htext]
    decide
  rw [hhost] at hallowed
  revert hallowed
  unfold IsAllowedHost
  decide

end DoctorClaw
