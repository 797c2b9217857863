/-
  Subject:   A SESSION WITH THE CONFIGURATOR (Hellduino_SystemDataConfig.ino), and what the updater and the bootloader
             find afterwards.

  The menu erases the system data, shows them, or stores an address to update from or the settings of the network.
  All of it goes through the driver. A slot holds what was stored there last. But that is not yet what is used: the
  configurator shows an address as accepted if it ends in ".hex", and the updater wants more of it. One that is too
  long, or has no slash, is shown, and never downloaded from; and one path that the updater takes does not fit.

  * `MenuAction`, `MenuAction.calls` -- the menu, as calls of the driver; `MenuAction.stores` -- what they store;
  * `slot_session` -- over every session a slot holds what was stored there last;
  * `readOnlineUpdateAppUrl` -- what the configurator shows; `downloadsFrom` -- what `get_url` leaves;
  * **`url_survives`** -- the address confirmed last is shown exactly if it has the ending, and downloaded from
    exactly if it is `Accepted`.
-/
import SmartHome.Firmware.GetUrl
import SmartHome.Firmware.SpiDriver
import SmartHome.Firmware.TftpConfig

namespace SmartHome.Firmware

open SmartHome.Lib SpiDriver

/-! ## 1. The menu -/

/-- A line of `online_update_url_config`. -/
abbrev UrlLine := { line : List UInt8 // IsLine 256 line }

/-- `y` or `Y`. -/
def Confirmed (key : UInt8) : Prop := key = 121 ∨ key = 89

instance (key : UInt8) : Decidable (Confirmed key) := inferInstanceAs (Decidable (_ ∨ _))

/-- What is chosen from the menu; the other entries change nothing, or leave the program. With the lines come the
    key pressed at the end and what the stack holds before. -/
inductive MenuAction where
  | eraseAll
  | readConfig
  | urlConfig (line : UrlLine) (key : UInt8)
  | tftpConfig (lines : TftpLines) (cfg : Memory) (key : UInt8)

/-- `all_0xFF`, of `EXT_FLASH_PAGE_SIZE` bytes. -/
def all0xFF : List UInt8 := List.replicate 256 0xFF

/-- `erase_all_system_data`. -/
def eraseAllSystemData : List Call :=
  [.writeSystemData 0 all0xFF, .writeSystemData 1 all0xFF, .writeSystemData 2 all0xFF]

/-- `online_update_url_config`: the line with its terminator is stored and read back. -/
def onlineUpdateUrlConfig (line : UrlLine) (key : UInt8) : List Call :=
  if line.1.length > 0 then
    if Confirmed key then [.writeSystemData 0 (line.1 ++ [0]), .readSystemData 0 256] else []
  else []

/-- `tftp_ip_config`, from what is stored on. -/
def tftpIpConfigCalls (stored : Option (List UInt8)) : List Call :=
  match stored with
  | none => []
  | some tftpCfg => [.writeSystemData 1 tftpCfg, .readSystemData 1 20]

/-- The calls of the driver. -/
def MenuAction.calls (lone0x : Bool) : MenuAction → List Call
  | .eraseAll => eraseAllSystemData
  | .readConfig => [.readSystemData 0 256, .readSystemData 1 20]
  | .urlConfig line key => onlineUpdateUrlConfig line key
  | .tftpConfig lines cfg key => tftpIpConfigCalls (tftpIpConfig lone0x lines cfg key)

/-- A session: the chip after it. -/
def menuSession (lone0x : Bool) (p : SpiPart) (actions : List MenuAction) (c : SpiNor) : SpiNor :=
  (session p (actions.flatMap (MenuAction.calls lone0x)) c).2

/-- What an action stores to a slot, if it does. -/
def MenuAction.stores (lone0x : Bool) (index : Nat) : MenuAction → Option (List UInt8)
  | .eraseAll => some all0xFF
  | .readConfig => none
  | .urlConfig line key => if index = 0 ∧ line.1 ≠ [] ∧ Confirmed key then some (line.1 ++ [0]) else none
  | .tftpConfig lines cfg key => if index = 1 then tftpIpConfig lone0x lines cfg key else none

/-! ## 2. What a slot holds -/

/-- What a slot holds after some bytes were stored to it. -/
def slotOf (before : Nat → UInt8) : Option (List UInt8) → Nat → UInt8
  | none => before
  | some bytes => fun a => bytes.getD a 0xFF

section Slots

variable (lone0x : Bool) (chip : Chip) (latency : Nat → Nat)

theorem length_tftp {lines : TftpLines} {cfg : Memory} {key : UInt8} {stored : List UInt8}
    (h : tftpIpConfig lone0x lines cfg key = some stored) : stored.length = 20 := by
  obtain ⟨-, gateway, mask, mac, ip, hread, rfl⟩ := tftpIpConfig_some_iff.1 h
  obtain ⟨hg, hm, hh, hi⟩ := hread.length
  simp [hg, hm, hh, hi]

theorem call_store (s : Content) {index : UInt8} (hindex : ¬ index > 2) {bytes : List UInt8} (hlen : bytes.length ≤ 256)
    (j : Nat) :
    (s.call chip (.writeSystemData index bytes)).2.slots j =
      slotOf (s.slots j) (if j = index.toNat then some bytes else none) := by
  have hguard : ¬ (index > 2 ∨ bytes.length > 256) := not_or.2 ⟨hindex, Nat.not_lt.2 hlen⟩
  show (ite _ _ _ : Content).slots j = _
  rw [if_neg hguard]
  by_cases hj : j = index.toNat
  · rw [if_pos hj, hj]
    exact Function.update_self _ _ _
  · rw [if_neg hj]
    exact Function.update_of_ne hj _ _

/-- **One action.** -/
theorem slot_action (action : MenuAction) (s : Content) {j : Nat} (hj : j ≤ 2) :
    (Content.session chip (action.calls lone0x) s).2.slots j = slotOf (s.slots j) (action.stores lone0x j) := by
  cases action with
  | eraseAll =>
    have hlen : all0xFF.length ≤ 256 := by rw [all0xFF, List.length_replicate]
    rw [MenuAction.calls, MenuAction.stores, eraseAllSystemData, Content.session_cons, Content.session_cons,
      Content.session_cons, Content.session_nil, call_store chip _ (by decide) hlen,
      call_store chip _ (by decide) hlen, call_store chip _ (by decide) hlen]
    have hslot : j = 0 ∨ j = 1 ∨ j = 2 := by omega
    obtain rfl | rfl | rfl := hslot <;> rfl
  | readConfig => rfl
  | urlConfig line key =>
    show (Content.session chip (onlineUpdateUrlConfig line key) s).2.slots j = slotOf _ (ite _ _ _)
    unfold onlineUpdateUrlConfig
    by_cases hline : line.1 = []
    · rw [if_neg (by rw [hline]; decide), if_neg fun h => h.2.1 hline]
      rfl
    · rw [if_pos (List.length_pos_iff.2 hline)]
      by_cases hkey : Confirmed key
      · have hlen := line.2.1
        rw [if_pos hkey]
        refine (call_store chip s (by decide) (by rw [List.length_append, List.length_singleton]; omega) j).trans ?_
        simp only [hline, hkey, ne_eq, not_false_eq_true, and_true]
        rfl
      · rw [if_neg hkey, if_neg fun h => hkey h.2.2]
        rfl
  | tftpConfig lines cfg key =>
    show (Content.session chip (tftpIpConfigCalls _) s).2.slots j = slotOf _ (ite _ _ _)
    cases hstored : tftpIpConfig lone0x lines cfg key with
    | none =>
      rw [ite_self]
      rfl
    | some stored =>
      exact call_store chip s (by decide) (by rw [length_tftp lone0x hstored]; decide) j

/-- **Over every session** a slot holds what was stored there last, or what it held before. -/
theorem slot_session (actions : List MenuAction) (s : Content) {j : Nat} (hj : j ≤ 2) :
    (Content.session chip (actions.flatMap (MenuAction.calls lone0x)) s).2.slots j =
      slotOf (s.slots j) (actions.filterMap (MenuAction.stores lone0x j)).getLast? := by
  induction actions using List.reverseRecOn with
  | nil => rfl
  | append_singleton actions action ih =>
    rw [List.flatMap_append, List.flatMap_singleton, Content.session_append, slot_action lone0x chip action _ hj, ih,
      List.filterMap_append]
    cases hstores : action.stores lone0x j with
    | none | some => simp [hstores, slotOf]

end Slots

/-! ## 3. What is read of it -/

/-- An array, amid whatever else the memory holds. -/
def arrayIn (bytes : List UInt8) (around : Memory) : Memory := fun i =>
  if 0 ≤ i ∧ i < bytes.length then bytes.getD i.toNat 0 else around i

/-- `url` after `ext_flash_read_system_data`. -/
def storedUrl (p : SpiPart) (c : SpiNor) (around : Memory) : Memory :=
  arrayIn (extFlashReadSystemData p 0 256 c).1 around

/-- `read_online_update_app_url`: the address that is shown, `none` for "URL not configed". `url_len` has eight bits. -/
def readOnlineUpdateAppUrl (url : Memory) : Option (List UInt8) :=
  let urlLen := strnlen url 0 256 % 256
  if urlLen < 256 ∧ urlLen > 4 then
    if strcasecmp url hexEnding ((urlLen : Int) - 4) then some (bytesFrom url (strlen url 0) 0) else none
  else none

/-- The address that `http.get` is given; `none` if a `strcpy` of `get_url` went beyond `kHostname` or `kPath`. -/
def downloadsFrom (r : UrlRun) : Option (List UInt8) :=
  if r.kHostname.length ≤ 64 ∧ r.kPath.length ≤ 128 then some (r.kHostname.dropLast ++ r.kPath.dropLast) else none

/-- The defaults. -/
def defaultUrl : List UInt8 := defaultHostname.dropLast ++ defaultPath.dropLast

/-- What the updater takes: the host fits its array, and the path without the slash has one of these lengths. -/
def Taken (s : List UInt8) (lengths : Nat → Prop) : Prop :=
  s.length < 192 ∧ EndsInHex s ∧
    ∃ host path, s = host ++ slash :: path ∧ slash ∉ host ∧ host.length < 64 ∧ lengths path.length

/-- An address that is taken and fits. -/
def Accepted (s : List UInt8) : Prop := Taken s (· < 127)

/-- An address that is taken, but with the slash and the terminator its path has 129 bytes. -/
def Overruns (s : List UInt8) : Prop := Taken s (· = 127)

section Url

variable {mem : Memory} {s : List UInt8}

theorem bytesFrom_string (h : CStrAt mem 0 s) : bytesFrom mem s.length 0 = s := by
  have hfull := (cStrAt_iff.1 h).1
  rw [bytesFrom_add] at hfull
  exact (List.append_inj hfull (by rw [length_bytesFrom])).1

theorem not_endsInHex_short (h : s.length < 4) : ¬ EndsInHex s := by
  intro hhex
  have hlen := congrArg List.length hhex
  rw [List.length_map, List.length_drop, show hexEnding.length = 4 from rfl] at hlen
  omega

/-- What the comparison that begins before the string has found: the string is an end of ".hex". -/
theorem strcasecmp_bytes {t : List UInt8} {i : Int} (h : strcasecmp mem t i = true) :
    (bytesFrom mem t.length i).map tolower = t.map tolower := by
  induction t generalizing i with
  | nil => rfl
  | cons c t ih =>
    rw [strcasecmp, Bool.and_eq_true, beq_iff_eq] at h
    rw [List.length_cons, bytesFrom, List.map_cons, List.map_cons, h.1, ih h.2]

theorem getUrl_short (h : CStrAt mem 0 s) (h4 : s.length < 4) : ∃ reads, getUrl mem = useDefault reads := by
  have hl : s.length < 256 := h4.trans (by decide)
  unfold getUrl
  rw [h.strnlen_eq hl, Nat.mod_eq_of_lt hl, if_pos (h4.trans (by decide))]
  by_cases hcmp : strcasecmp mem hexEnding ((s.length : Int) - 4) = true
  · -- no slash is found then
    have hbytes := strcasecmp_bytes hcmp
    have hparts : bytesFrom mem hexEnding.length ((s.length : Int) - 4) =
        bytesFrom mem (4 - s.length) ((s.length : Int) - 4) ++ bytesFrom mem s.length 0 := by
      rw [show hexEnding.length = (4 - s.length) + s.length by
        rw [show hexEnding.length = 4 from rfl]; omega, bytesFrom_add]
      congr 2
      omega
    have hslash : slash ∉ s := by
      intro hin
      have hmem : tolower slash ∈ hexEnding.map tolower := by
        rw [← hbytes, hparts, bytesFrom_string h, List.map_append]
        exact List.mem_append_right _ (List.mem_map_of_mem hin)
      exact absurd hmem (by decide)
    simp only [hcmp, if_true]
    unfold splitUrl
    rw [h.strchr_none hslash (by decide) (hl.trans (by decide))]
    exact ⟨_, rfl⟩
  · simp only [hcmp]
    exact ⟨_, rfl⟩

theorem getUrl_taken (h : CStrAt mem 0 s) {lengths : Nat → Prop} (hs : Taken s lengths)
    (hlengths : ∀ l, lengths l → l < 128) :
    ∃ reads host path, getUrl mem = ⟨reads, host ++ [0], slash :: path ++ [0]⟩ ∧ s = host ++ slash :: path ∧
      host.length < 64 ∧ lengths path.length := by
  obtain ⟨hlen, hhex, host, path, rfl, hslash, hhost, hpath⟩ := hs
  have hl : (host ++ slash :: path).length < 256 := hlen.trans (by decide)
  have h4 : 4 ≤ (host ++ slash :: path).length := by
    by_contra hshort
    exact not_endsInHex_short (Nat.not_le.1 hshort) hhex
  obtain ⟨reads, hr, hget⟩ := getUrl_string h h4 hl
  obtain ⟨reads', -, hsplit⟩ := splitUrl_some h hslash hl hr
  refine ⟨reads', host, path, ?_, rfl, hhost, hpath⟩
  rw [hget, if_pos ⟨hlen, hhex⟩, hsplit, if_pos ⟨hhost, hlengths _ hpath⟩]

/-- **An address that is accepted is downloaded from.** -/
theorem downloads_accepted (h : CStrAt mem 0 s) (hs : Accepted s) : downloadsFrom (getUrl mem) = some s := by
  obtain ⟨reads, host, path, hget, rfl, hhost, hpath⟩ := getUrl_taken h hs fun l hl => Nat.lt_succ_of_lt hl
  have hfits : (host ++ [0]).length ≤ 64 ∧ (slash :: path ++ [0]).length ≤ 128 := by
    simp only [List.length_append, List.length_cons, List.length_nil]
    omega
  rw [hget, downloadsFrom, if_pos hfits, List.dropLast_concat, List.dropLast_concat]

/-- **One byte too many.** -/
theorem downloads_overruns (h : CStrAt mem 0 s) (hs : Overruns s) : downloadsFrom (getUrl mem) = none := by
  obtain ⟨reads, host, path, hget, -, -, hpath⟩ := getUrl_taken h hs fun l hl => hl ▸ Nat.lt_succ_self 127
  have hlong : ¬ (slash :: path ++ [0]).length ≤ 128 := by
    simp only [List.length_append, List.length_cons, List.length_nil]
    omega
  rw [hget, downloadsFrom, if_neg fun hfits => hlong hfits.2]

/-- **Any other is not**: the defaults are. -/
theorem downloads_default (h : CStrAt mem 0 s) (hl : s.length < 256) (hs : ¬ Accepted s) (hs' : ¬ Overruns s) :
    downloadsFrom (getUrl mem) = some defaultUrl := by
  suffices hdefault : ∃ reads, getUrl mem = useDefault reads by
    obtain ⟨reads, hget⟩ := hdefault
    rw [hget]
    exact if_pos (show defaultHostname.length ≤ 64 ∧ defaultPath.length ≤ 128 by decide +kernel)
  by_cases h4 : s.length < 4
  · exact getUrl_short h h4
  · obtain ⟨reads, hr, hget⟩ := getUrl_string h (Nat.not_lt.1 h4) hl
    by_cases htake : s.length < 192 ∧ EndsInHex s
    · rw [hget, if_pos htake]
      by_cases hin : slash ∈ s
      · obtain ⟨host, path, rfl, hslash⟩ := List.eq_append_cons_of_mem hin
        obtain ⟨reads', -, hsplit⟩ := splitUrl_some h hslash hl hr
        have hparts : ¬ (host.length < 64 ∧ path.length < 128) := by
          intro hparts
          obtain hfits | hlong := Nat.lt_or_eq_of_le (Nat.le_of_lt_succ hparts.2)
          · exact hs ⟨htake.1, htake.2, host, path, rfl, hslash, hparts.1, hfits⟩
          · exact hs' ⟨htake.1, htake.2, host, path, rfl, hslash, hparts.1, hlong⟩
        exact ⟨reads', by rw [hsplit, if_neg hparts]⟩
      · obtain ⟨reads', -, hsplit⟩ := splitUrl_none h hin hl hr
        exact ⟨reads', hsplit⟩
    · exact ⟨reads, by rw [hget, if_neg htake]⟩

/-- What is shown: the ending is all that counts. -/
theorem shown_string (h : CStrAt mem 0 s) (hl : s.length < 256) :
    readOnlineUpdateAppUrl mem = if 4 < s.length ∧ EndsInHex s then some s else none := by
  unfold readOnlineUpdateAppUrl
  rw [h.strnlen_eq hl, Nat.mod_eq_of_lt hl, h.strlen_eq (hl.trans (by decide)), bytesFrom_string h]
  by_cases h4 : 4 < s.length
  · simp only [hl, h4, true_and, if_true, strcasecmp_ending h h4.le]
  · simp only [hl, h4, true_and, false_and, if_false]

end Url

/-! ## 4. After a session -/

/-- `url` as the updater, or the configurator, reads it after a session. -/
def urlAfter (lone0x : Bool) (p : SpiPart) (actions : List MenuAction) (c : SpiNor) (around : Memory) : Memory :=
  storedUrl p (menuSession lone0x p actions c) around

section Session

variable (lone0x : Bool) (chip : Chip) {latency : Nat → Nat} {c : SpiNor}

/-- What is read from a slot after a session: what was stored there last. -/
theorem read_session (hlatency : ∀ n, latency n ≤ 200) (h : c.Idle) (actions : List MenuAction) (index : UInt8)
    (len : Nat) (hguard : ¬ (index > 2 ∨ len > 256)) :
    (extFlashReadSystemData (part chip latency) index len (menuSession lone0x (part chip latency) actions c)).1 =
      (List.range len).map (slotOf ((content c).slots index.toNat)
        (actions.filterMap (MenuAction.stores lone0x index.toNat)).getLast?) := by
  have hidle := session_idle chip latency h hlatency (actions.flatMap (MenuAction.calls lone0x))
  have hread := (served_readSystemData chip latency hidle index len).answer
  have hkept := (session_eq chip latency h hlatency (actions.flatMap (MenuAction.calls lone0x))).2
  have hindex : index.toNat ≤ 2 := UInt8.le_iff_toNat_le.1 (UInt8.not_lt.1 (not_or.1 hguard).1)
  refine hread.trans ((if_neg hguard).trans ?_)
  rw [hkept, slot_session lone0x chip actions (content c) hindex]

variable {lone0x}

/-- The action that stored last. -/
theorem getLast_stores {j : Nat} {before after : List MenuAction} {action : MenuAction} {bytes : List UInt8}
    (haction : action.stores lone0x j = some bytes) (hafter : ∀ a ∈ after, a.stores lone0x j = none) :
    ((before ++ action :: after).filterMap (MenuAction.stores lone0x j)).getLast? = some bytes := by
  rw [List.filterMap_append, List.filterMap_cons_some haction, List.filterMap_eq_nil_iff.2 hafter,
    List.getLast?_concat]

/-- A line stored with its terminator is a string again when it is read. -/
theorem cStrAt_stored {line : List UInt8} (hline : IsLine 256 line) (around : Memory) :
    CStrAt (arrayIn ((List.range 256).map fun a => (line ++ [0]).getD a 0xFF) around) 0 line := by
  have hlen : line.length ≤ 255 := hline.1
  refine cStrAt_iff.2 ⟨?_, fun h0 => absurd (hline.2 0 h0).1 (by decide)⟩
  refine List.ext_getElem? fun k => ?_
  by_cases hk : k < line.length + 1
  · have hbyte : k < ((List.range 256).map fun a => (line ++ [0]).getD a 0xFF).length := by
      rw [List.length_map, List.length_range]
      omega
    have hk' : k < (line ++ [0]).length := by
      rw [List.length_append, List.length_singleton]
      exact hk
    rw [getElem?_bytesFrom hk, Int.zero_add, arrayIn, if_pos (by omega), Int.toNat_natCast,
      List.getD_eq_getElem _ _ hbyte, List.getElem_map, List.getElem_range, List.getD_eq_getElem _ _ hk',
      List.getElem?_eq_getElem hk']
  · rw [List.getElem?_eq_none (by rw [length_bytesFrom]; omega),
      List.getElem?_eq_none (by rw [List.length_append, List.length_singleton]; omega)]

/-- **The address confirmed last**: the configurator shows it exactly if it has the ending; the updater downloads from
    it if it is accepted, writes beyond its array if the path is one byte too long for it, and else downloads from
    the defaults. -/
theorem url_survives (hlatency : ∀ n, latency n ≤ 200) (h : c.Idle) (before after : List MenuAction) {line : UrlLine}
    (hline : line.1 ≠ []) {key : UInt8} (hkey : Confirmed key) (hafter : ∀ a ∈ after, a.stores lone0x 0 = none)
    (around url : Memory)
    (hurl : url = urlAfter lone0x (part chip latency) (before ++ .urlConfig line key :: after) c around) :
    readOnlineUpdateAppUrl url = (if 4 < line.1.length ∧ EndsInHex line.1 then some line.1 else none) ∧
      (Accepted line.1 → downloadsFrom (getUrl url) = some line.1) ∧
      (Overruns line.1 → downloadsFrom (getUrl url) = none) ∧
      (¬ Accepted line.1 → ¬ Overruns line.1 → downloadsFrom (getUrl url) = some defaultUrl) := by
  have hstores : MenuAction.stores lone0x 0 (.urlConfig line key) = some (line.1 ++ [0]) := if_pos ⟨rfl, hline, hkey⟩
  have hread := read_session lone0x chip hlatency h (before ++ .urlConfig line key :: after) 0 256 (by decide)
  rw [show UInt8.toNat 0 = 0 from rfl, getLast_stores hstores hafter] at hread
  have hstring : CStrAt url 0 line.1 := by
    rw [hurl, urlAfter, storedUrl, hread]
    exact cStrAt_stored line.2 around
  have hl : line.1.length < 256 := Nat.lt_succ_of_le line.2.1
  exact ⟨shown_string hstring hl, downloads_accepted hstring, downloads_overruns hstring, downloads_default hstring hl⟩

end Session

/-- The name of a file, without a host. -/
def updateHex : UrlLine := ⟨[117, 112, 100, 97, 116, 101, 46, 104, 101, 120], isLine_of_all (by decide) (by decide)⟩

/-- One with a host. -/
def homeHex : UrlLine := ⟨[104, 111, 109, 101, 47, 97, 46, 104, 101, 120], isLine_of_all (by decide) (by decide)⟩

theorem updateHex_not_taken (lengths : Nat → Prop) : ¬ Taken updateHex.1 lengths := by
  intro h
  obtain ⟨-, -, host, path, hline, -⟩ := h
  have hin : slash ∈ updateHex.1 := hline ▸ List.mem_append_right host List.mem_cons_self
  exact absurd hin (by decide)

theorem homeHex_accepted : Accepted homeHex.1 :=
  ⟨by decide, by decide, [104, 111, 109, 101], [97, 46, 104, 101, 120], rfl, by decide, by decide, by decide⟩

/-- Everything is erased and an address stored, on a chip in use: it is shown as the address to update from, and is
    not. After another one was stored, and a third not confirmed, that one is. -/
theorem url_survives_shown :
    readOnlineUpdateAppUrl (urlAfter false (part chip256 fun _ => 3)
        [.eraseAll, .urlConfig updateHex 121, .readConfig] usedChip fun _ => 0) = some updateHex.1 ∧
      downloadsFrom (getUrl (urlAfter false (part chip256 fun _ => 3)
        [.eraseAll, .urlConfig updateHex 121, .readConfig] usedChip fun _ => 0)) = some defaultUrl ∧
      downloadsFrom (getUrl (urlAfter false (part chip256 fun _ => 3)
        [.eraseAll, .urlConfig updateHex 121, .readConfig, .urlConfig homeHex 89, .urlConfig updateHex 110] usedChip
        fun _ => 0)) = some homeHex.1 := by
  have hfirst := @url_survives false chip256 (fun _ => 3) usedChip (fun _ => by decide) ⟨rfl, rfl⟩ [.eraseAll]
    [.readConfig] updateHex (by decide) 121 (.inl rfl) (by simp [MenuAction.stores]) (fun _ => 0) _ rfl
  have hsecond := @url_survives false chip256 (fun _ => 3) usedChip (fun _ => by decide) ⟨rfl, rfl⟩
    [.eraseAll, .urlConfig updateHex 121, .readConfig] [.urlConfig updateHex 110] homeHex (by decide) 89 (.inr rfl)
    (by simp [MenuAction.stores, Confirmed]) (fun _ => 0) _ rfl
  exact ⟨hfirst.1, hfirst.2.2.2 (updateHex_not_taken _) (updateHex_not_taken _), hsecond.2.1 homeHex_accepted⟩

end SmartHome.Firmware
