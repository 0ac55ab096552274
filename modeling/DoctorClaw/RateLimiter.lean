import DoctorClaw.Lib.CString
import DoctorClaw.Lib.FixedWindow
import Mathlib.Algebra.Group.Nat.Defs
import Mathlib.Data.List.Nodup

/-!
# The rate limiter

`rate_limiter_check` keeps an entry for each of up to 256 addresses.  A full
table is cleaned up first, which reads the clock again and drops what has not
been seen for two windows; an address that finds no entry free is let through
and leaves no trace.

As long as that does not happen, every address gets the verdicts of a window of
its own, and nobody can tell when the table was cleaned up.
-/

namespace DoctorClaw

open FixedWindow

/-! ## The table -/

structure RateLimitEntry where
  ip : Bytes
  requestCount : UInt64
  firstRequestTime : UInt64
  lastRequestTime : UInt64

structure RateLimiter where
  entries : List RateLimitEntry
  windowMs : UInt64
  maxRequests : ℕ

def rateLimiterEntries : ℕ := 256

def rateLimiterIpMax : ℕ := 48

def rateLimiterInit (windowMs : UInt64) (maxRequests : ℕ) : RateLimiter := ⟨[], windowMs, maxRequests⟩

def rateLimiterCleanup (limiter : RateLimiter) (now : UInt64) : RateLimiter :=
  { limiter with
    entries := limiter.entries.filter fun e ↦ now - e.lastRequestTime < limiter.windowMs * 2 }

def RateLimitEntry.hit (e : RateLimitEntry) (windowMs now : UInt64) : RateLimitEntry :=
  let e := if windowMs < now - e.firstRequestTime then
      { e with requestCount := 0, firstRequestTime := now }
    else e
  { e with requestCount := e.requestCount + 1, lastRequestTime := now }

/-- The search loop, with the entry that was found. -/
def hitEntry (windowMs now : UInt64) (ip : Bytes) :
    List RateLimitEntry → Option (List RateLimitEntry × RateLimitEntry)
  | [] => none
  | e :: rest =>
      if e.ip = ip then some (e.hit windowMs now :: rest, e.hit windowMs now)
      else (hitEntry windowMs now ip rest).map fun r ↦ (e :: r.1, r.2)

def RateLimiter.addEntry (limiter : RateLimiter) (now : UInt64) (ip : Bytes) : RateLimiter :=
  { limiter with
    entries := limiter.entries ++ [⟨CString.cut rateLimiterIpMax ip, 1, now, now⟩] }

/-- `later` is the clock when the table is cleaned up. -/
def rateLimiterCheck (limiter : RateLimiter) (now later : UInt64) (ip : Bytes) : ℤ × RateLimiter :=
  match hitEntry limiter.windowMs now ip limiter.entries with
  | some (entries, e) =>
      (if limiter.maxRequests < e.requestCount.toNat then -1 else 0,
        { limiter with entries := entries })
  | none =>
      if rateLimiterEntries ≤ limiter.entries.length then
        let limiter := rateLimiterCleanup limiter later
        if rateLimiterEntries ≤ limiter.entries.length then (0, limiter)
        else (0, limiter.addEntry now ip)
      else (0, limiter.addEntry now ip)

/-! ## Every sequence of calls -/

inductive LimiterCall
  | check (ip : Bytes) (now later : UInt64)
  | cleanup (now : UInt64)

def RateLimiter.step (limiter : RateLimiter) : LimiterCall → RateLimiter
  | .check ip now later => (rateLimiterCheck limiter now later ip).2
  | .cleanup now => rateLimiterCleanup limiter now

/-- The verdicts, each with its address. -/
def limiterVerdicts : RateLimiter → List LimiterCall → List (Bytes × ℤ)
  | _, [] => []
  | limiter, .check ip now later :: calls =>
      (ip, (rateLimiterCheck limiter now later ip).1) ::
        limiterVerdicts (rateLimiterCheck limiter now later ip).2 calls
  | limiter, .cleanup now :: calls => limiterVerdicts (rateLimiterCleanup limiter now) calls

/-- What the clock shows during a call. -/
def LimiterCall.clock : LimiterCall → List ℕ
  | .check _ now later => [now.toNat, later.toNat]
  | .cleanup now => [now.toNat]

def LimiterCall.hit : LimiterCall → Option (Bytes × ℕ)
  | .check ip now _ => some (ip, now.toNat)
  | .cleanup _ => none

/-- The address has an entry, or there is one to spare. -/
def HasRoom (limiter : RateLimiter) : LimiterCall → Prop
  | .check ip now later =>
      hitEntry limiter.windowMs now ip limiter.entries = none →
        rateLimiterEntries ≤ limiter.entries.length →
        (rateLimiterCleanup limiter later).entries.length < rateLimiterEntries
  | .cleanup _ => True

def RoomyRun : RateLimiter → List LimiterCall → Prop
  | _, [] => True
  | limiter, call :: calls => HasRoom limiter call ∧ RoomyRun (limiter.step call) calls

/-! ## One entry for each address -/

def entryOf (entries : List RateLimitEntry) (ip : Bytes) : Option RateLimitEntry :=
  entries.find? fun e ↦ e.ip = ip

theorem entryOf_cons (e : RateLimitEntry) (rest : List RateLimitEntry) (ip : Bytes) :
    entryOf (e :: rest) ip = if e.ip = ip then some e else entryOf rest ip := by
  by_cases he : e.ip = ip <;> simp [entryOf, he]

theorem ip_hit (e : RateLimitEntry) (windowMs now : UInt64) : (e.hit windowMs now).ip = e.ip := by
  unfold RateLimitEntry.hit
  split_ifs <;> rfl

theorem hitEntry_eq (windowMs now : UInt64) (ip : Bytes) (entries : List RateLimitEntry) :
    (hitEntry windowMs now ip entries).map Prod.snd =
      (entryOf entries ip).map fun e ↦ e.hit windowMs now := by
  induction entries with
  | nil => rfl
  | cons e rest ih =>
      rw [hitEntry, entryOf_cons]
      split_ifs
      · rfl
      · rw [← ih, Option.map_map]
        rfl

theorem hitEntry_entries {windowMs now : UInt64} {ip : Bytes} {entries entries' : List RateLimitEntry}
    {e : RateLimitEntry} (h : hitEntry windowMs now ip entries = some (entries', e)) :
    entries'.map RateLimitEntry.ip = entries.map RateLimitEntry.ip ∧ entryOf entries' ip = some e ∧
      ∀ other, other ≠ ip → entryOf entries' other = entryOf entries other := by
  induction entries generalizing entries' with
  | nil => simp [hitEntry] at h
  | cons e₀ rest ih =>
      rw [hitEntry] at h
      split_ifs at h with he
      · obtain ⟨rfl, rfl⟩ : _ = entries' ∧ _ = e := by simpa using h
        refine ⟨by simp [ip_hit], ?_, fun other hother ↦ ?_⟩
        · rw [entryOf_cons, if_pos (by rw [ip_hit, he])]
        · rw [entryOf_cons, entryOf_cons, ip_hit, he, if_neg (Ne.symm hother),
            if_neg (Ne.symm hother)]
      · obtain ⟨⟨rest', e'⟩, hrest, heq⟩ := Option.map_eq_some_iff.mp h
        obtain ⟨rfl, rfl⟩ : e₀ :: rest' = entries' ∧ e' = e := by simpa using heq
        obtain ⟨hips, hown, hothers⟩ := ih hrest
        refine ⟨by simp [hips], ?_, fun other hother ↦ ?_⟩
        · rw [entryOf_cons, if_neg he, hown]
        · rw [entryOf_cons, entryOf_cons, hothers other hother]

theorem entryOf_eq_none_iff {entries : List RateLimitEntry} {ip : Bytes} :
    entryOf entries ip = none ↔ ip ∉ entries.map RateLimitEntry.ip := by
  simp [entryOf, List.find?_eq_none]

theorem entryOf_append (entries : List RateLimitEntry) (e : RateLimitEntry) (ip : Bytes) :
    entryOf (entries ++ [e]) ip = (entryOf entries ip).or (if e.ip = ip then some e else none) := by
  by_cases he : e.ip = ip <;> simp [entryOf, List.find?_append, he]

theorem entryOf_filter {entries : List RateLimitEntry} (hnodup : (entries.map RateLimitEntry.ip).Nodup)
    (p : RateLimitEntry → Bool) (ip : Bytes) :
    entryOf (entries.filter p) ip = (entryOf entries ip).filter p := by
  induction entries with
  | nil => rfl
  | cons e rest ih =>
      rw [List.map_cons, List.nodup_cons] at hnodup
      have hrest := ih hnodup.2
      by_cases hp : p e = true
      · rw [List.filter_cons_of_pos hp, entryOf_cons, entryOf_cons, hrest]
        split_ifs
        · simp [Option.filter, hp]
        · rfl
      · rw [List.filter_cons_of_neg hp, entryOf_cons, hrest]
        split_ifs with he
        · rw [entryOf_eq_none_iff.mpr (he ▸ hnodup.1)]
          simp [Option.filter, hp]
        · rfl

/-! ## The table and one window for each address -/

def RateLimitEntry.counter (e : RateLimitEntry) (windowMs : UInt64) : Counter :=
  ⟨e.requestCount.toNat, e.firstRequestTime.toNat + (windowMs.toNat + 1)⟩

/-- At the time the entries are the counters of their addresses, and the window
of every other address is over. -/
structure RateLimiter.Agrees (limiter : RateLimiter) (spec : Bytes → Counter) (time hits : ℕ) :
    Prop where
  nodup : (limiter.entries.map RateLimitEntry.ip).Nodup
  of_entry : ∀ ip e, entryOf limiter.entries ip = some e →
    spec ip = e.counter limiter.windowMs ∧
      e.firstRequestTime.toNat ≤ e.lastRequestTime.toNat ∧ e.lastRequestTime.toNat ≤ time ∧
      e.requestCount.toNat ≤ hits
  of_none : ∀ ip, entryOf limiter.entries ip = none → (spec ip).windowEnd ≤ time

section Agreement

variable {limiter : RateLimiter} {spec : Bytes → Counter} {time hits : ℕ} {ip : Bytes}
  {now later : UInt64}

theorem RateLimiter.Agrees.mono (h : limiter.Agrees spec time hits) {time' : ℕ}
    (hle : time ≤ time') : limiter.Agrees spec time' hits where
  nodup := h.nodup
  of_entry ip e he := by
    obtain ⟨hspec, hfirst, hlast, hcount⟩ := h.of_entry ip e he
    exact ⟨hspec, hfirst, hlast.trans hle, hcount⟩
  of_none ip hnone := (h.of_none ip hnone).trans hle

/-- An entry counts as the window of its address does. -/
theorem counter_hit {e : RateLimitEntry} {windowMs : UInt64}
    (hfirst : e.firstRequestTime.toNat ≤ now.toNat) (hroom : e.requestCount.toNat + 1 < 2 ^ 64) :
    (e.hit windowMs now).counter windowMs =
        (e.counter windowMs).hit (windowMs.toNat + 1) now.toNat ∧
      (e.hit windowMs now).firstRequestTime.toNat ≤ now.toNat ∧
      (e.hit windowMs now).lastRequestTime = now ∧
      (e.hit windowMs now).requestCount.toNat ≤ e.requestCount.toNat + 1 := by
  have hgap : (now - e.firstRequestTime).toNat = now.toNat - e.firstRequestTime.toNat :=
    UInt64.toNat_sub_of_le _ _ (UInt64.le_iff_toNat_le.mpr hfirst)
  have hcount : (e.requestCount + 1).toNat = e.requestCount.toNat + 1 := by
    rw [UInt64.toNat_add, UInt64.toNat_one, Nat.mod_eq_of_lt hroom]
  unfold RateLimitEntry.hit RateLimitEntry.counter Counter.hit
  by_cases hover : windowMs < now - e.firstRequestTime
  · have hend : e.firstRequestTime.toNat + (windowMs.toNat + 1) ≤ now.toNat := by
      rw [UInt64.lt_iff_toNat_lt, hgap] at hover
      omega
    rw [if_pos hover, if_pos hend]
    exact ⟨rfl, le_rfl, rfl, Nat.le_add_left 1 _⟩
  · have hend : ¬ e.firstRequestTime.toNat + (windowMs.toNat + 1) ≤ now.toNat := by
      rw [UInt64.lt_iff_toNat_lt, hgap] at hover
      omega
    rw [if_neg hover, if_neg hend]
    exact ⟨by rw [hcount], hfirst, rfl, hcount.le⟩

theorem RateLimiter.Agrees.cleanup (h : limiter.Agrees spec time hits)
    (hpos : 0 < limiter.windowMs.toNat) (hwidth : 2 * limiter.windowMs.toNat < 2 ^ 64)
    (hnow : time ≤ now.toNat) : (rateLimiterCleanup limiter now).Agrees spec now.toNat hits := by
  have hdouble : (limiter.windowMs * 2).toNat = 2 * limiter.windowMs.toNat := by
    rw [UInt64.toNat_mul, show (2 : UInt64).toNat = 2 from rfl, Nat.mod_eq_of_lt (by omega)]
    omega
  have hentries : ∀ ip, entryOf (rateLimiterCleanup limiter now).entries ip =
      (entryOf limiter.entries ip).filter fun e ↦
        now - e.lastRequestTime < limiter.windowMs * 2 := entryOf_filter h.nodup _
  refine ⟨h.nodup.sublist (List.filter_sublist.map _), fun ip e he ↦ ?_, fun ip hnone ↦ ?_⟩
  · rw [hentries] at he
    obtain ⟨hspec, hfirst, hlast, hcount⟩ := h.of_entry ip e (Option.filter_eq_some_iff.mp he).1
    exact ⟨hspec, hfirst, hlast.trans hnow, hcount⟩
  · rw [hentries] at hnone
    cases hentry : entryOf limiter.entries ip with
    | none => exact (h.of_none ip hentry).trans hnow
    | some e =>
        obtain ⟨hspec, hfirst, hlast, -⟩ := h.of_entry ip e hentry
        have hgap : (now - e.lastRequestTime).toNat = now.toNat - e.lastRequestTime.toNat :=
          UInt64.toNat_sub_of_le _ _ (UInt64.le_iff_toNat_le.mpr (hlast.trans hnow))
        have hold : ¬ now - e.lastRequestTime < limiter.windowMs * 2 := by
          intro hlt
          simp [hentry, Option.filter, hlt] at hnone
        rw [UInt64.lt_iff_toNat_lt, hgap, hdouble] at hold
        rw [hspec]
        dsimp only [RateLimitEntry.counter]
        omega

theorem RateLimiter.Agrees.addEntry (h : limiter.Agrees spec time hits)
    (hnone : entryOf limiter.entries ip = none) (hip : ip.length < rateLimiterIpMax)
    (hclosed : (spec ip).windowEnd ≤ now.toNat) (hnow : now.toNat ≤ time) :
    (limiter.addEntry now ip).Agrees (hitKey (limiter.windowMs.toNat + 1) spec ip now.toNat) time
      (hits + 1) := by
  have hfresh : (spec ip).hit (limiter.windowMs.toNat + 1) now.toNat =
      ⟨1, now.toNat + (limiter.windowMs.toNat + 1)⟩ := if_pos hclosed
  have hentries : ∀ other, entryOf (limiter.addEntry now ip).entries other =
      (entryOf limiter.entries other).or (if ip = other then some ⟨ip, 1, now, now⟩ else none) := by
    intro other
    rw [RateLimiter.addEntry, CString.cut_of_lt hip]
    exact entryOf_append _ _ _
  refine ⟨?_, fun other e he ↦ ?_, fun other hother ↦ ?_⟩
  · rw [RateLimiter.addEntry, CString.cut_of_lt hip, List.map_append, List.map_singleton]
    refine h.nodup.append (List.nodup_singleton _) (List.disjoint_singleton.mpr ?_)
    exact entryOf_eq_none_iff.mp hnone
  · rw [hentries] at he
    by_cases heq : ip = other
    · subst heq
      rw [hnone, if_pos rfl, Option.none_or] at he
      obtain rfl := Option.some.inj he
      rw [hitKey, Function.update_self, hfresh]
      exact ⟨rfl, le_rfl, hnow, Nat.le_add_left 1 _⟩
    · rw [if_neg heq, Option.or_none] at he
      obtain ⟨hspec, hfirst, hlast, hcount⟩ := h.of_entry other e he
      rw [hitKey, Function.update_of_ne (Ne.symm heq)]
      exact ⟨hspec, hfirst, hlast, hcount.trans (Nat.le_succ _)⟩
  · rw [hentries] at hother
    by_cases heq : ip = other
    · simp [heq] at hother
    · rw [if_neg heq, Option.or_none] at hother
      rw [hitKey, Function.update_of_ne (Ne.symm heq)]
      exact h.of_none other hother

/-- The address has an entry, which counts the hit as its window does. -/
theorem RateLimiter.Agrees.check_found (h : limiter.Agrees spec time hits) (hnow : time ≤ now.toNat)
    (hlater : now.toNat ≤ later.toNat) (hhits : hits + 1 < 2 ^ 64)
    {entries : List RateLimitEntry} {e : RateLimitEntry}
    (hhit : hitEntry limiter.windowMs now ip limiter.entries = some (entries, e)) :
    RateLimiter.Agrees { limiter with entries := entries }
        (hitKey (limiter.windowMs.toNat + 1) spec ip now.toNat) later.toNat (hits + 1) ∧
      e.requestCount.toNat = ((spec ip).hit (limiter.windowMs.toNat + 1) now.toNat).count := by
  obtain ⟨hips, hown, hothers⟩ := hitEntry_entries hhit
  have hfound := hitEntry_eq limiter.windowMs now ip limiter.entries
  rw [hhit] at hfound
  obtain ⟨e₀, he₀, heq⟩ := Option.map_eq_some_iff.mp hfound.symm
  obtain rfl : e₀.hit limiter.windowMs now = e := heq
  obtain ⟨hspec, hfirst, hlast, hcount⟩ := h.of_entry ip e₀ he₀
  obtain ⟨hcounter, hfirst', hlast', hcount'⟩ := @counter_hit _ _ limiter.windowMs
    (hfirst.trans (hlast.trans hnow)) (by omega)
  refine ⟨⟨hips ▸ h.nodup, fun other e he ↦ ?_, fun other hother ↦ ?_⟩, ?_⟩
  · by_cases heq : other = ip
    · subst heq
      obtain rfl := Option.some.inj (hown.symm.trans he)
      rw [hitKey, Function.update_self, hspec, ← hcounter, hlast']
      exact ⟨rfl, hfirst', hlater, hcount'.trans (Nat.succ_le_succ hcount)⟩
    · dsimp only at he
      rw [hothers other heq] at he
      obtain ⟨hspec, hfirst, hlast, hcount⟩ := h.of_entry other e he
      rw [hitKey, Function.update_of_ne heq]
      exact ⟨hspec, hfirst, hlast.trans (hnow.trans hlater), hcount.trans (Nat.le_succ _)⟩
  · by_cases heq : other = ip
    · subst heq
      exact absurd (hown.symm.trans hother) (Option.some_ne_none _)
    · dsimp only at hother
      rw [hothers other heq] at hother
      rw [hitKey, Function.update_of_ne heq]
      exact (h.of_none other hother).trans (hnow.trans hlater)
  · rw [hspec, ← hcounter]
    rfl

/-- The address has no entry and is given one, behind a clean-up if the table is
full. -/
theorem RateLimiter.Agrees.check_added (h : limiter.Agrees spec time hits)
    (hpos : 0 < limiter.windowMs.toNat) (hwidth : 2 * limiter.windowMs.toNat < 2 ^ 64)
    (hnow : time ≤ now.toNat) (hlater : now.toNat ≤ later.toNat)
    (hroom : HasRoom limiter (.check ip now later))
    (hhit : hitEntry limiter.windowMs now ip limiter.entries = none)
    (hnone : entryOf limiter.entries ip = none) :
    ∃ cleaned : RateLimiter, cleaned.Agrees spec later.toNat hits ∧
      entryOf cleaned.entries ip = none ∧ cleaned.windowMs = limiter.windowMs ∧
      cleaned.maxRequests = limiter.maxRequests ∧
      rateLimiterCheck limiter now later ip = (0, cleaned.addEntry now ip) := by
  rw [rateLimiterCheck, hhit]
  dsimp only
  by_cases hfull : rateLimiterEntries ≤ limiter.entries.length
  · have hfree := hroom hhit hfull
    rw [if_pos hfull, if_neg (Nat.not_le.mpr hfree)]
    refine ⟨_, h.cleanup hpos hwidth (hnow.trans hlater), ?_, rfl, rfl, rfl⟩
    rw [rateLimiterCleanup, entryOf_filter h.nodup, hnone]
    rfl
  · rw [if_neg hfull]
    exact ⟨limiter, h.mono (hnow.trans hlater), hnone, rfl, rfl, rfl⟩

/-- One check, as long as the address finds its entry or a free one. -/
theorem RateLimiter.Agrees.check (h : limiter.Agrees spec time hits)
    (hpos : 0 < limiter.windowMs.toNat) (hwidth : 2 * limiter.windowMs.toNat < 2 ^ 64)
    (hmax : 1 ≤ limiter.maxRequests) (hip : ip.length < rateLimiterIpMax)
    (hnow : time ≤ now.toNat) (hlater : now.toNat ≤ later.toNat) (hhits : hits + 1 < 2 ^ 64)
    (hroom : HasRoom limiter (.check ip now later)) :
    let out := rateLimiterCheck limiter now later ip
    let width := limiter.windowMs.toNat + 1
    out.2.Agrees (hitKey width spec ip now.toNat) later.toNat (hits + 1) ∧
      out.2.windowMs = limiter.windowMs ∧ out.2.maxRequests = limiter.maxRequests ∧
      (out.1 = -1 ↔ limiter.maxRequests < ((spec ip).hit width now.toNat).count) := by
  intro out width
  cases hhit : hitEntry limiter.windowMs now ip limiter.entries with
  | some r =>
      obtain ⟨entries, e⟩ := r
      obtain ⟨hagrees, hcount⟩ := h.check_found hnow hlater hhits hhit
      have hout : out = (if limiter.maxRequests < e.requestCount.toNat then -1 else 0,
          { limiter with entries := entries }) := by
        change rateLimiterCheck limiter now later ip = _
        rw [rateLimiterCheck, hhit]
      rw [hout, ← hcount]
      refine ⟨hagrees, rfl, rfl, ?_⟩
      dsimp only
      split_ifs with hover <;> simp [hover]
  | none =>
      have hfound := hitEntry_eq limiter.windowMs now ip limiter.entries
      have hnone : entryOf limiter.entries ip = none := by
        rw [hhit] at hfound
        simpa using hfound.symm
      have hclosed : (spec ip).windowEnd ≤ now.toNat := (h.of_none ip hnone).trans hnow
      have hverdict : ¬ limiter.maxRequests < ((spec ip).hit width now.toNat).count := by
        rw [Counter.hit, if_pos hclosed]
        exact Nat.not_lt.mpr hmax
      obtain ⟨cleaned, hagrees, hnone, hwindow, hmax', hout⟩ :=
        h.check_added hpos hwidth hnow hlater hroom hhit hnone
      have hadded := hagrees.addEntry hnone hip hclosed hlater
      rw [hwindow] at hadded
      rw [show out = _ from hout]
      refine ⟨hadded, hwindow, hmax', iff_of_false ?_ hverdict⟩
      change ¬ (0 : ℤ) = -1
      decide

/-- Call by call the table answers as a window for each address would. -/
theorem limiterVerdicts_eq {calls : List LimiterCall} (h : limiter.Agrees spec time hits)
    (hpos : 0 < limiter.windowMs.toNat) (hwidth : 2 * limiter.windowMs.toNat < 2 ^ 64)
    (hmax : 1 ≤ limiter.maxRequests)
    (hip : ∀ hit ∈ calls.filterMap LimiterCall.hit, hit.1.length < rateLimiterIpMax)
    (hclock : (time :: calls.flatMap LimiterCall.clock).Pairwise (· ≤ ·))
    (hlen : hits + calls.length < 2 ^ 64) (hroom : RoomyRun limiter calls) :
    (limiterVerdicts limiter calls).map (fun v ↦ (v.1, decide (v.2 = -1))) =
      keyedVerdicts limiter.maxRequests (limiter.windowMs.toNat + 1) spec
        (calls.filterMap LimiterCall.hit) := by
  induction calls generalizing limiter spec time hits with
  | nil => rfl
  | cons call calls ih =>
      obtain ⟨hhere, hroom⟩ := hroom
      rw [List.length_cons] at hlen
      obtain ⟨hstart, hclock⟩ := List.pairwise_cons.mp hclock
      cases call with
      | check ip now later =>
          obtain ⟨hnow, hclock⟩ := List.pairwise_cons.mp hclock
          obtain ⟨hagrees, hwindow, hmaxRequests, hverdict⟩ := h.check hpos hwidth hmax
            (hip _ (.head _)) (hstart _ (.head _)) (hnow _ (.head _)) (by omega) hhere
          have hrest := ih hagrees (hwindow ▸ hpos) (hwindow ▸ hwidth) (hmaxRequests ▸ hmax)
            (fun hit hh ↦ hip hit (.tail _ hh)) hclock (by omega) hroom
          rw [hwindow, hmaxRequests] at hrest
          simp only [limiterVerdicts, List.map_cons, hrest, hverdict]
          rfl
      | cleanup now =>
          have hagrees := h.cleanup hpos hwidth (hstart now.toNat (.head _))
          exact ih hagrees hpos hwidth hmax hip hclock (by omega) hroom

end Agreement

/-- As long as no address is turned away from a full table, each one gets the
verdicts of a window of its own requests, whatever the others do and whenever
the table is cleaned up. -/
theorem rate_limiter_is_per_address (windowMs : UInt64) (maxRequests : ℕ)
    (hpos : 0 < windowMs.toNat) (hwidth : 2 * windowMs.toNat < 2 ^ 64) (hmax : 1 ≤ maxRequests)
    (calls : List LimiterCall)
    (hip : ∀ hit ∈ calls.filterMap LimiterCall.hit, hit.1.length < rateLimiterIpMax)
    (hclock : (calls.flatMap LimiterCall.clock).Pairwise (· ≤ ·))
    (hlen : calls.length < 2 ^ 64)
    (hroom : RoomyRun (rateLimiterInit windowMs maxRequests) calls) (ip : Bytes) :
    ((limiterVerdicts (rateLimiterInit windowMs maxRequests) calls).filter fun v ↦ v.1 = ip).map
        (fun v ↦ decide (v.2 = -1)) =
      verdicts maxRequests (windowMs.toNat + 1) .closed
        (((calls.filterMap LimiterCall.hit).filter fun hit ↦ hit.1 = ip).map Prod.snd) := by
  have hstart : (rateLimiterInit windowMs maxRequests).Agrees (fun _ ↦ Counter.closed) 0 0 :=
    ⟨List.nodup_nil, fun ip e he ↦ absurd he nofun, fun ip _ ↦ le_rfl⟩
  have hkeyed := limiterVerdicts_eq hstart hpos hwidth hmax hip
    (List.pairwise_cons.mpr ⟨fun _ _ ↦ Nat.zero_le _, hclock⟩) (by simpa using hlen) hroom
  have hown := verdicts_of_key maxRequests (windowMs.toNat + 1) ip (fun _ ↦ Counter.closed)
    (calls.filterMap LimiterCall.hit)
  rw [show keyedVerdicts maxRequests (windowMs.toNat + 1) _ _ = _ from hkeyed.symm,
    List.filter_map, List.map_map] at hown
  exact hown

/-- The third request within a second is refused, and the clean-up does not
help. -/
theorem rate_limiter_is_per_address_of_three :
    let calls := [LimiterCall.check (ascii "10.0.0.1") 5000 5000,
      .check (ascii "10.0.0.2") 5100 5100, .check (ascii "10.0.0.1") 5200 5200, .cleanup 5300,
      .check (ascii "10.0.0.1") 5400 5400, .check (ascii "10.0.0.1") 7000 7000]
    ((limiterVerdicts (rateLimiterInit 1000 2) calls).filter fun v ↦ v.1 = ascii "10.0.0.1").map
      (fun v ↦ decide (v.2 = -1)) = [false, false, true, false] := by
  intro calls
  rw [rate_limiter_is_per_address 1000 2 (by decide) (by decide) (by decide) calls (by decide)
    (by decide) (by decide) ⟨fun _ ↦ nofun, fun _ ↦ nofun, fun _ ↦ nofun, trivial,
      fun _ ↦ nofun, fun _ ↦ nofun, trivial⟩]
  decide

end DoctorClaw
