import DoctorClaw.Lib.Lists
import DoctorClaw.Lib.Scanf
import DoctorClaw.Lib.Strtok

/-!
# The channel registry and its file

`channels_save_config` writes the registered channels as `key=value` lines.
`channels_load_config` keeps the channel it is reading in a record of its own
and registers it when the next `type` line or the end of the file comes.  The
record starts out zeroed, and zero is the type of a Telegram channel.
-/

namespace DoctorClaw

open CString Scanf

/-- `channel_type_t`. -/
inductive ChannelType
  | telegram
  | discord
  | slack
  | whatsapp
  | signal
  | matrix
  | irc
  | email
  | dingtalk
  | lark
  | mattermost
  | qq
  | webhook
  | imessage
  | cli
  | unknown
  deriving DecidableEq

def channelGetName : ChannelType → Bytes
  | .telegram => ascii "telegram"
  | .discord => ascii "discord"
  | .slack => ascii "slack"
  | .whatsapp => ascii "whatsapp"
  | .signal => ascii "signal"
  | .matrix => ascii "matrix"
  | .irc => ascii "irc"
  | .email => ascii "email"
  | .dingtalk => ascii "dingtalk"
  | .lark => ascii "lark"
  | .mattermost => ascii "mattermost"
  | .qq => ascii "qq"
  | .webhook => ascii "webhook"
  | .imessage => ascii "imessage"
  | .cli => ascii "cli"
  | .unknown => ascii "unknown"

def knownChannelTypes : List ChannelType :=
  [.telegram, .discord, .slack, .whatsapp, .signal, .matrix, .irc, .email, .dingtalk, .lark,
    .mattermost, .qq, .webhook, .imessage, .cli]

def channelGetType (name : Bytes) : ChannelType :=
  (knownChannelTypes.find? fun t ↦ channelGetName t = name).getD .unknown

/-- The fields of `channel_config_t` that are saved. -/
structure ChannelEntry where
  type : ChannelType
  name : Bytes
  enabled : Bool
  botToken : Bytes
  webhookUrl : Bytes
  deriving DecidableEq

/-- The zeroed record. -/
def ChannelEntry.zero : ChannelEntry := ⟨.telegram, [], false, [], []⟩

def maxChannels : ℕ := 32

def maxChannelName : ℕ := 64

def maxChannelToken : ℕ := 512

/-- What `channel_init` does to the registry. -/
def channelInit (registry : List ChannelEntry) (config : ChannelEntry) : List ChannelEntry :=
  if registry.length < maxChannels then registry ++ [config] else registry

/-- Register the channel that was being read. -/
def flushCurrent (registry : List ChannelEntry) (current : ChannelEntry) : List ChannelEntry :=
  if current.type ≠ .unknown ∧ registry.length < maxChannels then channelInit registry current
  else registry

/-- One `key=value` line. -/
def loadPair (s : List ChannelEntry × ChannelEntry) (key value : Bytes) :
    List ChannelEntry × ChannelEntry :=
  if key = ascii "type" then
    (flushCurrent s.1 s.2, { ChannelEntry.zero with type := channelGetType value })
  else if key = ascii "name" then (s.1, { s.2 with name := cut maxChannelName value })
  else if key = ascii "enabled" then
    (s.1, { s.2 with enabled := value = ascii "true" ∨ value = ascii "1" })
  else if key = ascii "bot_token" then (s.1, { s.2 with botToken := cut maxChannelToken value })
  else if key = ascii "webhook_url" then (s.1, { s.2 with webhookUrl := cut maxChannelToken value })
  else s

def loadChannelLine (s : List ChannelEntry × ChannelEntry) (line : Bytes) :
    List ChannelEntry × ChannelEntry :=
  if line.head? = some 35 ∨ line.head? = some 10 then s
  else match scanPair 63 255 line with
    | some (key, value) => loadPair s key value
    | none => s

def channelLineSize : ℕ := 512

/-- What is returned, and the registry afterwards; `none` is a file that cannot
be opened. -/
def channelsLoadConfig (registry : List ChannelEntry) (file : Option Bytes) :
    ℤ × List ChannelEntry :=
  match file with
  | none => (-1, registry)
  | some file =>
      let s := ((fgetsLines channelLineSize file.length file).map ofBuffer).foldl loadChannelLine
        (registry, ChannelEntry.zero)
      (0, flushCurrent s.1 s.2)

/-! ## Saving -/

def textField (key : String) (value : Bytes) : List Bytes :=
  if value = [] then [] else [ascii key ++ 61 :: value]

def ChannelEntry.lines (e : ChannelEntry) : List Bytes :=
  (ascii "type" ++ 61 :: channelGetName e.type) :: textField "name" e.name ++
    (ascii "enabled" ++ 61 :: if e.enabled then ascii "true" else ascii "false") ::
    textField "bot_token" e.botToken ++ textField "webhook_url" e.webhookUrl ++ [[]]

/-- The file that is written. -/
def channelsSaveConfig (registry : List ChannelEntry) : Bytes :=
  (ascii "# Doctor Claw channels" :: registry.flatMap ChannelEntry.lines).flatMap
    fun line ↦ line ++ [10]

/-- The entries that fit the table and one line each. -/
structure ChannelEntry.Fits (e : ChannelEntry) : Prop where
  type : e.type ≠ .unknown
  name : e.name.length < maxChannelName
  botToken : e.botToken.length < 256
  webhookUrl : e.webhookUrl.length < 256
  newline : (10 : UInt8) ∉ e.name ∧ (10 : UInt8) ∉ e.botToken ∧ (10 : UInt8) ∉ e.webhookUrl
  nul : (0 : UInt8) ∉ e.name ∧ (0 : UInt8) ∉ e.botToken ∧ (0 : UInt8) ∉ e.webhookUrl

/-- Loading the saved file into an empty registry gives the registry, and
loading it once more changes nothing. -/
structure RegistryRestored (registry : List ChannelEntry) : Prop where
  load : channelsLoadConfig [] (some (channelsSaveConfig registry)) = (0, registry)
  reload : channelsLoadConfig registry (some (channelsSaveConfig registry)) = (0, registry)

/-! ## The lines of one entry -/

variable {e : ChannelEntry} {registry : List ChannelEntry} {s : List ChannelEntry × ChannelEntry}

theorem channelGetType_getName {t : ChannelType} (h : t ≠ .unknown) :
    channelGetType (channelGetName t) = t := by
  cases t <;> first | exact absurd rfl h | decide

/-- A key that the reader takes as it is. -/
def IsKey (key : Bytes) : Prop :=
  key ≠ [] ∧ (61 : UInt8) ∉ key ∧ (0 : UInt8) ∉ key ∧ key.length ≤ 63 ∧ key.head? ≠ some 35 ∧
    key.head? ≠ some 10

instance : DecidablePred IsKey := fun _ ↦ inferInstanceAs (Decidable (_ ∧ _ ∧ _ ∧ _ ∧ _ ∧ _))

/-- A value that the reader takes as it is, when it is not empty. -/
def IsValue (value : Bytes) : Prop :=
  (10 : UInt8) ∉ value ∧ (0 : UInt8) ∉ value ∧ value.length ≤ 255

instance : DecidablePred IsValue := fun _ ↦ inferInstanceAs (Decidable (_ ∧ _ ∧ _))

theorem channelGetName_isValue (t : ChannelType) :
    channelGetName t ≠ [] ∧ IsValue (channelGetName t) := by
  cases t <;> decide

/-- The lines of the file as `fgets` hands them over. -/
def asRead (lines : List Bytes) : List Bytes := lines.map fun line ↦ ofBuffer (line ++ [10])

theorem loadChannelLine_pair {key value : Bytes} (hkey : IsKey key) (hne : value ≠ [])
    (hvalue : IsValue value) (s : List ChannelEntry × ChannelEntry) :
    loadChannelLine s (ofBuffer (key ++ 61 :: value ++ [10])) = loadPair s key value := by
  obtain ⟨hkne, hkeq, hknul, hklen, hkhash, hknl⟩ := hkey
  obtain ⟨hvnl, hvnul, hvlen⟩ := hvalue
  have hline : ofBuffer (key ++ 61 :: value ++ [10]) = key ++ 61 :: (value ++ [10]) := by
    rw [ofBuffer_eq_self (by simp [hknul, hvnul]), List.append_assoc, List.cons_append]
  have hfirst : (key ++ 61 :: (value ++ [10])).head? = key.head? := by
    cases key with
    | nil => exact absurd rfl hkne
    | cons c key => rfl
  rw [hline, loadChannelLine, hfirst, if_neg (not_or.mpr ⟨hkhash, hknl⟩),
    scanPair_line hkne hkeq hklen hne hvnl hvlen]

/-- A field that is written only when it is not empty. -/
theorem foldl_textField {key : String} {value : Bytes} (hkey : IsKey (ascii key))
    (hvalue : IsValue value) (s : List ChannelEntry × ChannelEntry) :
    (asRead (textField key value)).foldl loadChannelLine s =
      if value = [] then s else loadPair s (ascii key) value := by
  unfold textField asRead
  by_cases hne : value = []
  · rw [if_pos hne, if_pos hne]
    rfl
  · rw [if_neg hne, if_neg hne, List.map_singleton, List.foldl_cons, List.foldl_nil,
      loadChannelLine_pair hkey hne hvalue]

theorem ChannelEntry.Fits.isValue (h : e.Fits) :
    IsValue e.name ∧ IsValue e.botToken ∧ IsValue e.webhookUrl := by
  have hname := h.name
  have htoken := h.botToken
  have hurl := h.webhookUrl
  unfold maxChannelName at hname
  exact ⟨⟨h.newline.1, h.nul.1, by omega⟩, ⟨h.newline.2.1, h.nul.2.1, by omega⟩,
    ⟨h.newline.2.2, h.nul.2.2, by omega⟩⟩

/-- Reading the lines of an entry registers the one before it and leaves the
entry as the current one. -/
theorem foldl_entryLines (h : e.Fits) (s : List ChannelEntry × ChannelEntry) :
    (asRead e.lines).foldl loadChannelLine s = (flushCurrent s.1 s.2, e) := by
  obtain ⟨hnameValue, htokenValue, hurlValue⟩ := h.isValue
  obtain ⟨htypeNe, htypeValue⟩ := channelGetName_isValue e.type
  have htype : loadChannelLine s (ofBuffer (ascii "type" ++ 61 :: channelGetName e.type ++ [10])) =
      (flushCurrent s.1 s.2, { ChannelEntry.zero with type := e.type }) := by
    rw [loadChannelLine_pair (by decide) htypeNe htypeValue, loadPair, if_pos rfl,
      channelGetType_getName h.type]
  have hname : ∀ r : List ChannelEntry × ChannelEntry, r.2.name = [] →
      (asRead (textField "name" e.name)).foldl loadChannelLine r =
        (r.1, { r.2 with name := e.name }) := by
    intro r hr
    rw [foldl_textField (by decide) hnameValue]
    split_ifs with hempty
    · rw [hempty, ← hr]
    · rw [loadPair, if_neg (by decide), if_pos rfl, cut_of_lt h.name]
  have henabled : ∀ r, loadChannelLine r (ofBuffer (ascii "enabled" ++
      61 :: (if e.enabled then ascii "true" else ascii "false") ++ [10])) =
        (r.1, { r.2 with enabled := e.enabled }) := by
    intro r
    cases e.enabled with
    | true => exact loadChannelLine_pair (by decide) (by decide) (by decide) r
    | false => exact loadChannelLine_pair (by decide) (by decide) (by decide) r
  have htoken : ∀ r : List ChannelEntry × ChannelEntry, r.2.botToken = [] →
      (asRead (textField "bot_token" e.botToken)).foldl loadChannelLine r =
        (r.1, { r.2 with botToken := e.botToken }) := by
    intro r hr
    rw [foldl_textField (by decide) htokenValue]
    split_ifs with hempty
    · rw [hempty, ← hr]
    · have hlen : e.botToken.length < maxChannelToken := h.botToken.trans (by decide)
      rw [loadPair, if_neg (by decide), if_neg (by decide), if_neg (by decide), if_pos rfl,
        cut_of_lt hlen]
  have hurl : ∀ r : List ChannelEntry × ChannelEntry, r.2.webhookUrl = [] →
      (asRead (textField "webhook_url" e.webhookUrl)).foldl loadChannelLine r =
        (r.1, { r.2 with webhookUrl := e.webhookUrl }) := by
    intro r hr
    rw [foldl_textField (by decide) hurlValue]
    split_ifs with hempty
    · rw [hempty, ← hr]
    · have hlen : e.webhookUrl.length < maxChannelToken := h.webhookUrl.trans (by decide)
      rw [loadPair, if_neg (by decide), if_neg (by decide), if_neg (by decide),
        if_neg (by decide), if_pos rfl, cut_of_lt hlen]
  have hlines : asRead e.lines =
      [ofBuffer (ascii "type" ++ 61 :: channelGetName e.type ++ [10])] ++
        asRead (textField "name" e.name) ++
        [ofBuffer (ascii "enabled" ++ 61 :: (if e.enabled then ascii "true" else ascii "false") ++
          [10])] ++ asRead (textField "bot_token" e.botToken) ++
        asRead (textField "webhook_url" e.webhookUrl) ++ [[10]] := by
    simp [asRead, ChannelEntry.lines, ofBuffer]
  rw [hlines]
  simp only [List.foldl_append, List.foldl_cons, List.foldl_nil, htype]
  rw [hname _ rfl, henabled, htoken _ rfl, hurl _ rfl]
  rfl

/-! ## The whole file -/

theorem flushCurrent_eq (hknown : e.type ≠ .unknown) (hlen : registry.length ≤ maxChannels) :
    flushCurrent registry e = (registry ++ [e]).take maxChannels := by
  unfold flushCurrent channelInit
  by_cases hroom : registry.length < maxChannels
  · rw [if_pos ⟨hknown, hroom⟩, if_pos hroom, List.take_of_length_le]
    rw [List.length_append, List.length_singleton]
    omega
  · rw [if_neg fun h ↦ hroom h.2, List.take_append_of_le_length (by omega),
      List.take_of_length_le hlen]

/-- Reading entries registers the current one and all but the last of them. -/
theorem foldl_registryLines {entries : List ChannelEntry} (hfits : ∀ e ∈ entries, e.Fits)
    (hknown : e.type ≠ .unknown) (hlen : registry.length ≤ maxChannels) :
    flushCurrent ((asRead (entries.flatMap ChannelEntry.lines)).foldl loadChannelLine
        (registry, e)).1
      ((asRead (entries.flatMap ChannelEntry.lines)).foldl loadChannelLine (registry, e)).2 =
      (registry ++ e :: entries).take maxChannels := by
  induction entries generalizing registry e with
  | nil => exact flushCurrent_eq hknown hlen
  | cons next entries ih =>
      have hnext : next.Fits := hfits next List.mem_cons_self
      have hread : asRead ((next :: entries).flatMap ChannelEntry.lines) =
          asRead next.lines ++ asRead (entries.flatMap ChannelEntry.lines) := by
        rw [asRead, List.flatMap_cons, List.map_append]
        rfl
      rw [hread, List.foldl_append, foldl_entryLines hnext,
        ih (fun e he ↦ hfits e (List.mem_cons_of_mem _ he)) hnext.type]
      · rw [flushCurrent_eq hknown hlen, List.take_take_append, List.append_assoc]
        rfl
      · rw [flushCurrent_eq hknown hlen]
        exact List.length_take_le _ _

theorem ChannelEntry.Fits.lines_short (h : e.Fits) :
    ∀ line ∈ e.lines, (10 : UInt8) ∉ line ∧ line.length + 1 < channelLineSize := by
  have hfield : ∀ key value : Bytes, IsKey key → (10 : UInt8) ∉ key → IsValue value →
      (10 : UInt8) ∉ key ++ 61 :: value ∧ (key ++ 61 :: value).length + 1 < channelLineSize := by
    intro key value hkey hnl hvalue
    have hklen := hkey.2.2.2.1
    have hvlen := hvalue.2.2
    refine ⟨by simp [hnl, hvalue.1], ?_⟩
    rw [List.length_append, List.length_cons]
    unfold channelLineSize
    omega
  have htext : ∀ (key : String) (value : Bytes), IsKey (ascii key) → (10 : UInt8) ∉ ascii key →
      IsValue value → ∀ line ∈ textField key value,
        (10 : UInt8) ∉ line ∧ line.length + 1 < channelLineSize := by
    intro key value hkey hnl hvalue line hline
    unfold textField at hline
    split_ifs at hline
    · cases hline
    · rw [List.mem_singleton.mp hline]
      exact hfield _ _ hkey hnl hvalue
  obtain ⟨hname, htoken, hurl⟩ := h.isValue
  intro line hline
  simp only [ChannelEntry.lines, List.mem_append, List.mem_cons, List.not_mem_nil,
    or_false] at hline
  rcases hline with (((rfl | hline) | rfl | hline) | hline) | rfl
  · exact hfield _ _ (by decide) (by decide) (channelGetName_isValue _).2
  · exact htext _ _ (by decide) (by decide) hname _ hline
  · refine hfield _ _ (by decide) (by decide) ?_
    split_ifs <;> decide
  · exact htext _ _ (by decide) (by decide) htoken _ hline
  · exact htext _ _ (by decide) (by decide) hurl _ hline
  · exact ⟨List.not_mem_nil, by decide⟩

/-- A load puts an empty Telegram channel in front of the saved ones. -/
theorem channelsLoadConfig_save {entries : List ChannelEntry} (hfits : ∀ e ∈ entries, e.Fits)
    (hlen : registry.length ≤ maxChannels) :
    channelsLoadConfig registry (some (channelsSaveConfig entries)) =
      (0, (registry ++ ChannelEntry.zero :: entries).take maxChannels) := by
  have hshort : ∀ line ∈ ascii "# Doctor Claw channels" :: entries.flatMap ChannelEntry.lines,
      (10 : UInt8) ∉ line ∧ line.length + 1 < channelLineSize := by
    intro line hline
    rcases List.mem_cons.mp hline with rfl | hline
    · decide
    · obtain ⟨e, he, hline⟩ := List.mem_flatMap.mp hline
      exact (hfits e he).lines_short line hline
  have hread : (fgetsLines channelLineSize (channelsSaveConfig entries).length
      (channelsSaveConfig entries)).map ofBuffer =
        ofBuffer (ascii "# Doctor Claw channels" ++ [10]) ::
          asRead (entries.flatMap ChannelEntry.lines) := by
    rw [channelsSaveConfig, fgetsLines_flatMap hshort, List.map_map, List.map_cons]
    rfl
  have hheader : ∀ s, loadChannelLine s (ofBuffer (ascii "# Doctor Claw channels" ++ [10])) = s :=
    fun s ↦ rfl
  rw [channelsLoadConfig]
  simp only [hread, List.foldl_cons, hheader]
  rw [foldl_registryLines hfits (by decide) hlen]

/-- The file restores the registry exactly when it is full of empty Telegram
channels. -/
theorem registryRestored_iff (hfits : ∀ e ∈ registry, e.Fits)
    (hlen : registry.length ≤ maxChannels) :
    RegistryRestored registry ↔ registry = List.replicate maxChannels ChannelEntry.zero := by
  constructor
  · intro h
    have hload := h.load
    rw [channelsLoadConfig_save hfits (Nat.zero_le _), List.nil_append, Prod.mk.injEq] at hload
    have hfull : registry.length = maxChannels := by
      have hcount := congrArg List.length hload.2
      rw [List.length_take, List.length_cons] at hcount
      omega
    have hsame := List.eq_replicate_of_take_cons hload.2
    rwa [hfull] at hsame
  · rintro rfl
    refine ⟨?_, ?_⟩
    · rw [channelsLoadConfig_save hfits (Nat.zero_le _)]
      rfl
    · rw [channelsLoadConfig_save hfits hlen]
      rfl

/-- The registry of empty Telegram channels, full to the last entry. -/
theorem fullRegistry_restored :
    RegistryRestored (List.replicate maxChannels ChannelEntry.zero) := by
  refine (registryRestored_iff (fun e he ↦ ?_) (by decide)).mpr rfl
  rw [List.eq_of_mem_replicate he]
  exact ⟨by decide, by decide, by decide, by decide, by decide, by decide⟩

def discordEntry : ChannelEntry :=
  ⟨.discord, ascii "main", true, [], ascii "https://discord.com/api/webhooks/1"⟩

/-- A registry of one Discord channel is loaded as two channels. -/
theorem discordRegistry_not_restored :
    discordEntry.Fits ∧ ¬ RegistryRestored [discordEntry] := by
  have hfits : discordEntry.Fits :=
    ⟨by decide, by decide, by decide, by decide, by decide, by decide⟩
  refine ⟨hfits, fun h ↦ ?_⟩
  have hload := h.load
  rw [channelsLoadConfig_save (by simpa using hfits) (Nat.zero_le _)] at hload
  exact absurd hload (by decide)

end DoctorClaw
