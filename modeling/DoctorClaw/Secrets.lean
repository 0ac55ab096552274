import DoctorClaw.Lib.CString
import DoctorClaw.Lib.KeyedList

/-!
# The secret store

`security.c` keeps the secrets in an array of 64 entries.  Storing appends an
entry, retrieving takes the first entry of the name and deleting removes the
first one.  The entries of one name are a queue, and the store is a map as long
as no queue holds two different values.
-/

namespace DoctorClaw

open CString KeyedList

def maxSecretName : ℕ := 64

def maxSecretValue : ℕ := 512

/-- The size of `g_secrets`. -/
def maxSecrets : ℕ := 64

/-- `secret_t`. -/
structure Secret where
  name : Bytes
  value : Bytes
  deriving DecidableEq

/-- What is returned, and the secrets afterwards. -/
def securitySecretsStore (secrets : List Secret) (name value : Bytes) : ℤ × List Secret :=
  if maxSecrets ≤ secrets.length then (-1, secrets)
  else (0, secrets ++ [⟨cut maxSecretName name, cut maxSecretValue value⟩])

/-- The value as it is copied into the buffer of the caller; `none` is `-1`. -/
def securitySecretsRetrieve (secrets : List Secret) (name : Bytes) (valueSize : ℕ) : Option Bytes :=
  (secrets.find? fun s ↦ s.name = name).map fun s ↦ cut valueSize s.value

def securitySecretsDelete (secrets : List Secret) (name : Bytes) : ℤ × List Secret :=
  match secrets.findIdx? fun s ↦ s.name = name with
  | some i => (0, secrets.eraseIdx i)
  | none => (-1, secrets)

/-! ## Sequences of calls -/

inductive SecretCall
  | store (name value : Bytes)
  | delete (name : Bytes)
  deriving DecidableEq

namespace SecretCall

def name : SecretCall → Bytes
  | store name _ => name
  | delete name => name

/-- The names and values an entry has room for. -/
def Fits : SecretCall → Prop
  | store name value => name.length < maxSecretName ∧ value.length < maxSecretValue
  | delete name => name.length < maxSecretName

instance : DecidablePred Fits := fun call ↦
  match call with
  | store _ _ => inferInstanceAs (Decidable (_ ∧ _))
  | delete _ => inferInstanceAs (Decidable (_ < _))

def perform (secrets : List Secret) : SecretCall → ℤ × List Secret
  | store name value => securitySecretsStore secrets name value
  | delete name => securitySecretsDelete secrets name

/-- How the call changes what a map holds under a name. -/
def revise (name : Bytes) (held : Option Bytes) : SecretCall → Option Bytes
  | store name' value => if name' = name then some value else held
  | delete name' => if name' = name then none else held

/-- How the call changes the number of stores of a name since its last
deletion. -/
def count (name : Bytes) (stores : ℕ) : SecretCall → ℕ
  | store name' _ => if name' = name then stores + 1 else stores
  | delete name' => if name' = name then 0 else stores

end SecretCall

/-- `g_secrets` after the calls. -/
def secretsAfter (calls : List SecretCall) : List Secret :=
  calls.foldl (fun secrets call ↦ (call.perform secrets).2) []

/-- The value of the latest store of the name that no later deletion of it
follows. -/
def latestSecret (name : Bytes) (calls : List SecretCall) : Option Bytes :=
  calls.foldl (SecretCall.revise name) none

def storesSinceDelete (name : Bytes) (calls : List SecretCall) : ℕ :=
  calls.foldl (SecretCall.count name) 0

def StoresSucceed (calls : List SecretCall) : Prop :=
  ∀ pre name value, pre ++ [.store name value] <+: calls →
    (securitySecretsStore (secretsAfter pre) name value).1 = 0

/-- After every part of the sequence each name holds its latest secret, and no
call changes what another name returns. -/
structure SecretsAreMap (calls : List SecretCall) : Prop where
  retrieves : ∀ pre, pre <+: calls → ∀ name valueSize, maxSecretValue ≤ valueSize →
    securitySecretsRetrieve (secretsAfter pre) name valueSize = latestSecret name pre
  frame : ∀ pre call, pre ++ [call] <+: calls → ∀ name, name ≠ call.name → ∀ valueSize,
    securitySecretsRetrieve (secretsAfter (pre ++ [call])) name valueSize =
      securitySecretsRetrieve (secretsAfter pre) name valueSize

/-- A store is of a name that is not held, or repeats the value it holds; a
deletion is of a name stored at most once since its last deletion. -/
def SecretCall.Unrepeated (pre : List SecretCall) : SecretCall → Prop
  | store name value => ∀ held, latestSecret name pre = some held → held = value
  | delete name => storesSinceDelete name pre ≤ 1

/-! ## One call -/

variable {calls pre : List SecretCall} {call : SecretCall} {name value : Bytes} {valueSize : ℕ}

theorem secretsAfter_append (pre : List SecretCall) (call : SecretCall) :
    secretsAfter (pre ++ [call]) = (call.perform (secretsAfter pre)).2 := by
  simp [secretsAfter]

theorem latestSecret_append (name : Bytes) (pre : List SecretCall) (call : SecretCall) :
    latestSecret name (pre ++ [call]) = call.revise name (latestSecret name pre) := by
  simp [latestSecret]

theorem storesSinceDelete_append (name : Bytes) (pre : List SecretCall) (call : SecretCall) :
    storesSinceDelete name (pre ++ [call]) = call.count name (storesSinceDelete name pre) := by
  simp [storesSinceDelete]

theorem rowsOf_store {secrets : List Secret}
    (hok : (securitySecretsStore secrets name value).1 = 0)
    (hname : name.length < maxSecretName) (hvalue : value.length < maxSecretValue) :
    rowsOf Secret.name name (securitySecretsStore secrets name value).2 =
      rowsOf Secret.name name secrets ++ [⟨name, value⟩] := by
  unfold securitySecretsStore at hok ⊢
  split_ifs at hok ⊢ with hfull
  · cases hok
  · rw [cut_of_lt hname, cut_of_lt hvalue]
    exact rowsOf_append_self Secret.name (e := ⟨name, value⟩) rfl secrets

theorem securitySecretsDelete_eq (secrets : List Secret) (name : Bytes) :
    (securitySecretsDelete secrets name).2 = remove Secret.name name secrets := by
  unfold securitySecretsDelete remove
  rw [List.eraseP_eq_eraseIdx]
  cases secrets.findIdx? fun s ↦ decide (s.name = name) with
  | none => rfl
  | some i => rfl

theorem securitySecretsRetrieve_eq (secrets : List Secret) (name : Bytes) (valueSize : ℕ) :
    securitySecretsRetrieve secrets name valueSize =
      (rowsOf Secret.name name secrets).head?.map fun s ↦ cut valueSize s.value := by
  rw [securitySecretsRetrieve, find?_eq_head?]

/-- A call changes the entries of its own name only. -/
theorem rowsOf_perform_ne (secrets : List Secret) (hfits : call.Fits) (h : name ≠ call.name) :
    rowsOf Secret.name name (call.perform secrets).2 = rowsOf Secret.name name secrets := by
  cases call with
  | store name' value =>
      change rowsOf _ _ (securitySecretsStore secrets name' value).2 = _
      unfold securitySecretsStore
      split_ifs
      · rfl
      · refine rowsOf_append_ne ?_ secrets
        rw [cut_of_lt hfits.1]
        exact h.symm
  | delete name' =>
      change rowsOf _ _ (securitySecretsDelete secrets name').2 = _
      rw [securitySecretsDelete_eq]
      exact rowsOf_remove_ne h secrets

theorem SecretCall.revise_ne (h : name ≠ call.name) (held : Option Bytes) :
    call.revise name held = held := by
  cases call with
  | store name' value => exact if_neg h.symm
  | delete name' => exact if_neg h.symm

theorem SecretCall.count_ne (h : name ≠ call.name) (stores : ℕ) :
    call.count name stores = stores := by
  cases call with
  | store name' value => exact if_neg h.symm
  | delete name' => exact if_neg h.symm

/-! ## Whole sequences -/

/-- The entries of a name are told by the calls: as many as there are stores
since its last deletion, all of them with its latest secret. -/
structure Tracks (rows : List Secret) (stores : ℕ) (held : Option Bytes) : Prop where
  length_eq : rows.length = stores
  latest : ∀ s ∈ rows, held = some s.value ∧ s.value.length < maxSecretValue
  absent : rows = [] → held = none

def SecretsTracked (calls : List SecretCall) : Prop :=
  ∀ name, Tracks (rowsOf Secret.name name (secretsAfter calls)) (storesSinceDelete name calls)
    (latestSecret name calls)

theorem SecretsTracked.nil : SecretsTracked [] := by
  intro name
  refine ⟨rfl, fun s hs ↦ ?_, fun _ ↦ rfl⟩
  simp [secretsAfter, rowsOf] at hs

theorem SecretsTracked.retrieve (h : SecretsTracked calls) (name : Bytes)
    (hsize : maxSecretValue ≤ valueSize) :
    securitySecretsRetrieve (secretsAfter calls) name valueSize = latestSecret name calls := by
  rw [securitySecretsRetrieve_eq]
  cases hrows : rowsOf Secret.name name (secretsAfter calls) with
  | nil => exact ((h name).absent hrows).symm
  | cons s rows =>
      obtain ⟨hlatest, hlen⟩ := (h name).latest s (hrows ▸ List.mem_cons_self)
      rw [hlatest, List.head?_cons, Option.map_some, cut_of_lt (hlen.trans_le hsize)]

theorem SecretsTracked.store (h : SecretsTracked pre) (hname : name.length < maxSecretName)
    (hvalue : value.length < maxSecretValue)
    (hok : (securitySecretsStore (secretsAfter pre) name value).1 = 0)
    (hun : (SecretCall.store name value).Unrepeated pre) :
    Tracks (rowsOf Secret.name name (secretsAfter (pre ++ [.store name value])))
      (storesSinceDelete name (pre ++ [.store name value]))
      (latestSecret name (pre ++ [.store name value])) := by
  have hrows : rowsOf Secret.name name (secretsAfter (pre ++ [.store name value])) =
      rowsOf Secret.name name (secretsAfter pre) ++ [⟨name, value⟩] := by
    rw [secretsAfter_append, SecretCall.perform, rowsOf_store hok hname hvalue]
  have hheld : latestSecret name (pre ++ [.store name value]) = some value := by
    rw [latestSecret_append]
    exact if_pos rfl
  have hstores : storesSinceDelete name (pre ++ [.store name value]) =
      storesSinceDelete name pre + 1 := by
    rw [storesSinceDelete_append]
    exact if_pos rfl
  rw [hrows, hheld, hstores]
  refine ⟨?_, fun s hs ↦ ?_, fun hnil ↦ ?_⟩
  · rw [List.length_append, (h name).length_eq, List.length_singleton]
  · rcases List.mem_append.mp hs with hs | hs
    · obtain ⟨hlatest, hlen⟩ := (h name).latest s hs
      exact ⟨congrArg some (hun s.value hlatest).symm, hlen⟩
    · obtain rfl := List.mem_singleton.mp hs
      exact ⟨rfl, hvalue⟩
  · exact absurd hnil (List.append_ne_nil_of_right_ne_nil _ (List.cons_ne_nil _ _))

theorem SecretsTracked.delete (h : SecretsTracked pre)
    (hun : (SecretCall.delete name).Unrepeated pre) :
    Tracks (rowsOf Secret.name name (secretsAfter (pre ++ [.delete name])))
      (storesSinceDelete name (pre ++ [.delete name]))
      (latestSecret name (pre ++ [.delete name])) := by
  have hrows : rowsOf Secret.name name (secretsAfter (pre ++ [.delete name])) = [] := by
    rw [secretsAfter_append, SecretCall.perform, securitySecretsDelete_eq, rowsOf_remove_self]
    refine List.eq_nil_of_length_eq_zero ?_
    have hlen := (h name).length_eq
    have hle : storesSinceDelete name pre ≤ 1 := hun
    rw [List.length_tail]
    omega
  have hheld : latestSecret name (pre ++ [.delete name]) = none := by
    rw [latestSecret_append]
    exact if_pos rfl
  have hstores : storesSinceDelete name (pre ++ [.delete name]) = 0 := by
    rw [storesSinceDelete_append]
    exact if_pos rfl
  rw [hrows, hheld, hstores]
  exact ⟨rfl, fun s hs ↦ absurd hs List.not_mem_nil, fun _ ↦ rfl⟩

theorem SecretsTracked.append (h : SecretsTracked pre) (hfits : call.Fits)
    (hok : ∀ name value, call = .store name value →
      (securitySecretsStore (secretsAfter pre) name value).1 = 0)
    (hun : call.Unrepeated pre) : SecretsTracked (pre ++ [call]) := by
  intro name
  by_cases hname : name = call.name
  · subst hname
    cases call with
    | store name value => exact h.store hfits.1 hfits.2 (hok _ _ rfl) hun
    | delete name => exact h.delete hun
  · rw [secretsAfter_append, storesSinceDelete_append, latestSecret_append,
      rowsOf_perform_ne _ hfits hname, call.revise_ne hname, call.count_ne hname]
    exact h name

/-- A sequence whose calls are all unrepeated is tracked. -/
theorem secretsTracked_of_unrepeated (hfits : ∀ call ∈ calls, call.Fits) (hok : StoresSucceed calls)
    (hun : ∀ pre call, pre ++ [call] <+: calls → call.Unrepeated pre) : SecretsTracked calls := by
  induction calls using List.reverseRecOn with
  | nil => exact SecretsTracked.nil
  | append_singleton pre call ih =>
      have hstart : pre <+: pre ++ [call] := List.prefix_append pre [call]
      refine (ih (fun c hc ↦ hfits c (List.mem_append_left _ hc))
        (fun pre' name value h ↦ hok pre' name value (h.trans hstart))
        fun pre' call' h ↦ hun pre' call' (h.trans hstart)).append ?_ ?_ ?_
      · exact hfits call (by simp)
      · rintro name value rfl
        exact hok pre name value (List.prefix_refl _)
      · exact hun pre call (List.prefix_refl _)

theorem StoresSucceed.of_prefix (h : StoresSucceed calls) (hstart : pre <+: calls) :
    StoresSucceed pre :=
  fun pre' name value h' ↦ h pre' name value (h'.trans hstart)

/-- What a call finds in a tracked store shows whether it repeats something. -/
theorem SecretsTracked.unrepeated (h : SecretsTracked pre) (hfits : call.Fits)
    (hok : ∀ name value, call = .store name value →
      (securitySecretsStore (secretsAfter pre) name value).1 = 0)
    (hmap : securitySecretsRetrieve (secretsAfter (pre ++ [call])) call.name maxSecretValue =
      latestSecret call.name (pre ++ [call])) : call.Unrepeated pre := by
  rw [securitySecretsRetrieve_eq, secretsAfter_append, latestSecret_append] at hmap
  cases call with
  | store name value =>
      intro held hheld
      change Option.map _ (rowsOf Secret.name name _).head? = if name = name then _ else _ at hmap
      rw [if_pos rfl, SecretCall.perform, rowsOf_store (hok _ _ rfl) hfits.1 hfits.2] at hmap
      cases hrows : rowsOf Secret.name name (secretsAfter pre) with
      | nil =>
          rw [(h name).absent hrows] at hheld
          cases hheld
      | cons s rows =>
          obtain ⟨hlatest, hlen⟩ := (h name).latest s (hrows ▸ List.mem_cons_self)
          rw [hrows, List.cons_append, List.head?_cons, Option.map_some, cut_of_lt hlen,
            Option.some.injEq] at hmap
          rw [hlatest, Option.some.injEq] at hheld
          exact hheld.symm.trans hmap
  | delete name =>
      change Option.map _ (rowsOf Secret.name name _).head? = if name = name then _ else _ at hmap
      rw [if_pos rfl, SecretCall.perform, securitySecretsDelete_eq, rowsOf_remove_self,
        Option.map_eq_none_iff, List.head?_eq_none_iff] at hmap
      have hlen := congrArg List.length hmap
      rw [List.length_tail, (h name).length_eq, List.length_nil] at hlen
      change storesSinceDelete name pre ≤ 1
      omega

theorem SecretsAreMap.of_prefix (h : SecretsAreMap calls) (hstart : pre <+: calls) :
    SecretsAreMap pre :=
  ⟨fun pre' h' ↦ h.retrieves pre' (h'.trans hstart),
    fun pre' call h' ↦ h.frame pre' call (h'.trans hstart)⟩

theorem unrepeated_of_map (hfits : ∀ call ∈ calls, call.Fits) (hok : StoresSucceed calls)
    (hmap : SecretsAreMap calls) : ∀ pre call, pre ++ [call] <+: calls → call.Unrepeated pre := by
  induction calls using List.reverseRecOn with
  | nil => exact fun pre call h ↦ absurd (List.prefix_nil.mp h) (by simp)
  | append_singleton before last ih =>
      have hstart : before <+: before ++ [last] := List.prefix_append before [last]
      have hfits' : ∀ call ∈ before, call.Fits := fun c hc ↦ hfits c (List.mem_append_left _ hc)
      have hbefore := ih hfits' (hok.of_prefix hstart) (hmap.of_prefix hstart)
      have htracked : SecretsTracked before :=
        secretsTracked_of_unrepeated hfits' (hok.of_prefix hstart) hbefore
      intro pre call h
      rcases List.prefix_concat_iff.mp h with h | h
      · obtain ⟨rfl, hcall⟩ := List.append_inj' h rfl
        obtain rfl : call = last := by simpa using hcall
        refine htracked.unrepeated (hfits call (by simp)) ?_ ?_
        · rintro name value rfl
          exact hok pre name value (List.prefix_refl _)
        · exact hmap.retrieves _ (List.prefix_refl _) call.name _ le_rfl
      · exact hbefore pre call h

/-- The store is a map over a sequence of calls exactly when no store replaces
a secret by another value and no deletion follows two stores. -/
theorem secretsAreMap_iff (hfits : ∀ call ∈ calls, call.Fits) (hok : StoresSucceed calls) :
    SecretsAreMap calls ↔ ∀ pre call, pre ++ [call] <+: calls → call.Unrepeated pre := by
  refine ⟨unrepeated_of_map hfits hok, fun hun ↦ ⟨fun pre hpre name valueSize hsize ↦ ?_, ?_⟩⟩
  · refine (secretsTracked_of_unrepeated (fun c hc ↦ hfits c (hpre.subset hc))
      (hok.of_prefix hpre) fun pre' call h ↦ hun pre' call (h.trans hpre)).retrieve name hsize
  · intro pre call hpre name hname valueSize
    have hcall : call.Fits := hfits call (hpre.subset (by simp))
    rw [securitySecretsRetrieve_eq, securitySecretsRetrieve_eq, secretsAfter_append,
      rowsOf_perform_ne _ hcall hname]

theorem length_secretsAfter_le (calls : List SecretCall) :
    (secretsAfter calls).length ≤ calls.length := by
  induction calls using List.reverseRecOn with
  | nil => exact le_rfl
  | append_singleton pre call ih =>
      rw [secretsAfter_append, List.length_append, List.length_singleton]
      cases call with
      | store name value =>
          rw [SecretCall.perform, securitySecretsStore]
          split_ifs
          · exact ih.trans (Nat.le_succ _)
          · rw [List.length_append, List.length_singleton]
            omega
      | delete name =>
          rw [SecretCall.perform, securitySecretsDelete_eq]
          exact ((List.eraseP_sublist).length_le.trans ih).trans (Nat.le_succ _)

/-- A sequence of at most 64 calls never fills the array. -/
theorem storesSucceed_of_length_le (h : calls.length ≤ maxSecrets) : StoresSucceed calls := by
  intro pre name value hpre
  have hlen := hpre.length_le
  have hle := length_secretsAfter_le pre
  rw [List.length_append, List.length_singleton] at hlen
  rw [securitySecretsStore, if_neg (by omega)]

/-- A key that is deleted before it is stored again. -/
theorem secretsAreMap_deleted_first :
    SecretsAreMap [.store (ascii "key") (ascii "a"), .delete (ascii "key"),
      .store (ascii "key") (ascii "b")] := by
  refine (secretsAreMap_iff (by decide)
    (storesSucceed_of_length_le (by decide))).mpr fun pre call h ↦ ?_
  rcases pre with _ | ⟨p, _ | ⟨q, _ | ⟨r, pre⟩⟩⟩
  · obtain rfl : call = _ := by simpa using h
    exact fun held hheld ↦ by cases hheld
  · obtain ⟨rfl, rfl⟩ : p = _ ∧ call = _ := by simpa using h
    exact (by decide : storesSinceDelete (ascii "key") [.store (ascii "key") (ascii "a")] ≤ 1)
  · obtain ⟨rfl, rfl, rfl⟩ : p = _ ∧ q = _ ∧ call = _ := by simpa using h
    intro held hheld
    have hnone : latestSecret (ascii "key")
        [.store (ascii "key") (ascii "a"), .delete (ascii "key")] = none := by decide
    rw [hnone] at hheld
    cases hheld
  · simp at h

def rotatedCalls : List SecretCall :=
  [.store (ascii "key") (ascii "a"), .store (ascii "key") (ascii "b")]

/-- A key that is rotated: the old value is still returned. -/
theorem rotated_secret_stays :
    (∀ call ∈ rotatedCalls, call.Fits) ∧ StoresSucceed rotatedCalls ∧
      ¬ SecretsAreMap rotatedCalls := by
  refine ⟨by decide, storesSucceed_of_length_le (by decide), fun h ↦ ?_⟩
  have hnew := h.retrieves _ (List.prefix_refl _) (ascii "key") 512 (by decide)
  exact absurd hnew (by decide)

end DoctorClaw
