/-
  Subject:   WHERE THE UPDATER DOWNLOADS FROM (`get_url` of Hellduino_OnlineUpdater.ino).

  Slot 0 of the system data holds an address, host and path in one string. It is taken if it ends in ".hex"
  and its parts fit into `kHostname` and `kPath`; else the defaults are. Two things go wrong. The ending is
  looked for four bytes before the end, whatever the length is, and a slot without a NUL counts as length 0,
  because `url_len` has eight bits: so up to four bytes before the array are read. And what is compared with
  the size of `kPath` is the path without its slash, which is then copied with it.

  * `getUrl` -- the source, with the addresses it reads and the bytes it writes;
  * `UrlSafe` -- it stays inside its arrays, and the parts are those of the string, or the defaults;
  * `getUrl_string` -- what it does with a terminated string of four characters or more;
  * **`urlSafe_iff`** -- safe exactly if the slot holds such a string, and not one with a path of 128 characters
    that is taken; `erased_reads` -- an erased slot.
-/
import SmartHome.Lib.CString

namespace SmartHome.Firmware

open SmartHome.Lib

/-! ## 1. get_url -/

/-- `/`. -/
def slash : UInt8 := 47

/-- `".hex"`. -/
def hexEnding : List UInt8 := [46, 104, 101, 120]

/-- `defaultHostname`, with its terminator. -/
def defaultHostname : List UInt8 := "www.hellprototypes.com".toUTF8.data.toList ++ [0]

/-- `defaultPath`, with its terminator. -/
def defaultPath : List UInt8 := "/Hellduino/Hellduino_Application.hex".toUTF8.data.toList ++ [0]

/-- What a call does: the indices of `url` it reads, and what it writes to `kHostname` and `kPath`, from their
    first bytes on. -/
structure UrlRun where
  reads : List Int
  kHostname : List UInt8
  kPath : List UInt8

/-- The lines at the end. -/
def useDefault (reads : List Int) : UrlRun := ⟨reads, defaultHostname, defaultPath⟩

/-- From `strchr` on. -/
def splitUrl (mem : Memory) (reads : List Int) : UrlRun :=
  let reads := reads ++ strchrReads mem 0 slash
  match strchr mem 0 slash with
  | none => useDefault reads
  | some pPath =>
    let cut := Function.update mem pPath 0
    let reads := reads ++ strlenReads cut 0
    if strlen cut 0 < 64 then
      let reads := reads ++ strlenReads cut (pPath + 1)
      if strlen cut (pPath + 1) < 128 then
        let mem := Function.update cut pPath slash
        ⟨reads ++ strlenReads cut 0 ++ strlenReads mem pPath, strcpy cut 0, strcpy mem pPath⟩
      else useDefault reads
    else useDefault reads

/-- `get_url`, with `url` at address 0 of the memory. `url_len` has eight bits. -/
def getUrl (mem : Memory) : UrlRun :=
  let urlLen := strnlen mem 0 256 % 256
  let reads := strnlenReads mem 0 256
  if urlLen < 64 + 128 then
    let reads := reads ++ strcasecmpReads mem hexEnding ((urlLen : Int) - 4)
    if strcasecmp mem hexEnding ((urlLen : Int) - 4) then splitUrl mem reads else useDefault reads
  else useDefault reads

/-! ## 2. What is wanted of it -/

/-- The content of slot 0, `EXT_FLASH_PAGE_SIZE` bytes. -/
abbrev Slot := Vector UInt8 256

/-- The content in `url`, amid whatever else the memory holds. -/
def Slot.inMemory (url : Slot) (around : Memory) : Memory := fun i =>
  if h : 0 ≤ i ∧ i < 256 then url.get ⟨i.toNat, by omega⟩ else around i

/-- The bytes up to the first NUL. -/
def Slot.text (url : Slot) : List UInt8 := url.toList.takeWhile (· ≠ 0)

/-- The last four characters are ".hex", in whatever case. -/
def EndsInHex (s : List UInt8) : Prop := (s.drop (s.length - 4)).map tolower = hexEnding

instance (s : List UInt8) : Decidable (EndsInHex s) := decEq _ hexEnding

/-- The call stays inside `url`, `kHostname` and `kPath`, and leaves there the defaults, or the two parts of the
    string in the slot. -/
structure UrlSafe (url : Slot) (r : UrlRun) : Prop where
  reads : ∀ i ∈ r.reads, 0 ≤ i ∧ i < 256
  kHostname : r.kHostname.length ≤ 64
  kPath : r.kPath.length ≤ 128
  content : (r.kHostname = defaultHostname ∧ r.kPath = defaultPath) ∨
    ∃ host path, r.kHostname = host ++ [0] ∧ r.kPath = slash :: path ++ [0] ∧ slash ∉ host ∧
      url.text = host ++ slash :: path ∧ url.text.length < 256 ∧ EndsInHex url.text

/-- What the slot has to hold: a string of four characters or more, and not one that is taken with 127
    characters behind the first slash. -/
def UrlSound (url : Slot) : Prop :=
  4 ≤ url.text.length ∧ url.text.length < 256 ∧
    ¬ (url.text.length < 192 ∧ EndsInHex url.text ∧
      ∃ host path, url.text = host ++ slash :: path ∧ slash ∉ host ∧ path.length = 127)

/-! ## 3. A terminated string -/

/-- All addresses are in the first `n` bytes of `url` or at the next one. -/
def Within (n : Nat) (reads : List Int) : Prop := ∀ x ∈ reads, 0 ≤ x ∧ x ≤ n

theorem Within.append {n : Nat} {l l' : List Int} (h : Within n l) (h' : Within n l') : Within n (l ++ l') :=
  fun x hx => (List.mem_append.1 hx).elim (h x) (h' x)

section String

variable {mem : Memory} {s : List UInt8}

/-- What a search reads that begins in a string of the array. -/
theorem within_search {stop : UInt8 → Bool} {limit i n : Nat} (h : CStrAt mem i s) (h0 : stop 0 = true)
    (hl : s.length < limit) (hn : i + s.length ≤ n) : Within n (spanReads stop mem limit i) := by
  intro x hx
  have := h.reads h0 hl hx
  omega

theorem splitUrl_none (h : CStrAt mem 0 s) (hs : slash ∉ s) (hl : s.length < 256) {reads : List Int}
    (hr : Within s.length reads) :
    ∃ reads', Within s.length reads' ∧ splitUrl mem reads = useDefault reads' := by
  have hlong : s.length < addressSpace := hl.trans (by decide)
  have hsearch : Within s.length (strchrReads mem 0 slash) := within_search (i := 0) h (by decide) hlong (by omega)
  refine ⟨_, hr.append hsearch, ?_⟩
  unfold splitUrl
  rw [h.strchr_none hs (by decide) hlong]

/-- The string is divided at its first slash, and taken if the parts are short enough. -/
theorem splitUrl_some {host path : List UInt8} (h : CStrAt mem 0 (host ++ slash :: path)) (hs : slash ∉ host)
    (hl : (host ++ slash :: path).length < 256) {reads : List Int} (hr : Within (host ++ slash :: path).length reads) :
    ∃ reads', Within (host ++ slash :: path).length reads' ∧ splitUrl mem reads =
        if host.length < 64 ∧ path.length < 128 then ⟨reads', host ++ [0], slash :: path ++ [0]⟩
        else useDefault reads' := by
  rw [List.length_append, List.length_cons] at hl hr ⊢
  have hpath : CStrAt mem (0 + host.length) (slash :: path) := h.append
  have hcut := h.cut
  have hbehind := h.behind 0
  have hback : Function.update (Function.update mem (0 + host.length : Int) 0) (0 + host.length) slash = mem := by
    rw [Function.update_idem, ← hpath.1, Function.update_eq_self]
  have hlong : ∀ n, n ≤ host.length + (path.length + 1) → n < addressSpace := fun n hn =>
    (hn.trans_lt hl).trans (by decide)
  -- what each of the searches reads
  have hr₁ : Within (host.length + (path.length + 1)) (strchrReads mem 0 slash) :=
    within_search (i := 0) h (by decide) (hlong _ (by rw [List.length_append, List.length_cons]))
      (by rw [List.length_append, List.length_cons]; omega)
  have hr₂ : Within (host.length + (path.length + 1)) (strlenReads (Function.update mem (0 + host.length : Int) 0) 0) :=
    within_search (i := 0) hcut rfl (hlong _ (by omega)) (by omega)
  have hr₃ : Within (host.length + (path.length + 1))
      (strlenReads (Function.update mem (0 + host.length : Int) 0) (0 + host.length + 1)) := by
    rw [Int.zero_add] at hbehind ⊢
    exact within_search (i := host.length + 1) hbehind rfl (hlong _ (by omega)) (by omega)
  have hr₄ : Within (host.length + (path.length + 1)) (strlenReads mem (0 + host.length)) := by
    rw [Int.zero_add] at hpath ⊢
    exact within_search (i := host.length) hpath rfl (hlong _ (by rw [List.length_cons]; omega))
      (by rw [List.length_cons])
  simp only [splitUrl]
  rw [h.strchr_eq hs (hlong _ (by rw [List.length_append, List.length_cons]))]
  simp only []
  rw [hback, hcut.strlen_eq (hlong _ (by omega)), hbehind.strlen_eq (hlong _ (by omega)),
    hcut.strcpy_eq (hlong _ (by omega)), hpath.strcpy_eq (hlong _ (by rw [List.length_cons]; omega))]
  by_cases hh : host.length < 64
  · rw [if_pos hh]
    by_cases hp : path.length < 128
    · refine ⟨_, ((((hr.append hr₁).append hr₂).append hr₃).append hr₂).append hr₄, ?_⟩
      rw [if_pos hp, if_pos ⟨hh, hp⟩]
    · refine ⟨_, ((hr.append hr₁).append hr₂).append hr₃, ?_⟩
      rw [if_neg hp, if_neg fun h => hp h.2]
  · refine ⟨_, (hr.append hr₁).append hr₂, ?_⟩
    rw [if_neg hh, if_neg fun h => hh h.1]

/-- The test of the ending, four bytes before the end. -/
theorem strcasecmp_ending (h : CStrAt mem 0 s) (h4 : 4 ≤ s.length) :
    strcasecmp mem hexEnding ((s.length : Int) - 4) = true ↔ EndsInHex s := by
  have hend : CStrAt mem ((s.length : Int) - 4) (s.drop (s.length - 4)) := by
    have h' : CStrAt mem 0 (s.take (s.length - 4) ++ s.drop (s.length - 4)) := by rwa [List.take_append_drop]
    have hat := h'.append
    rw [List.length_take, show (0 : Int) + (min (s.length - 4) s.length : Nat) = s.length - 4 by omega] at hat
    exact hat
  rw [hend.strcasecmp_iff (by decide)]
  exact Iff.rfl

/-- **A terminated string of four characters or more**: it is taken if it has the ending, a slash and parts
    that are short enough; else the defaults are. -/
theorem getUrl_string (h : CStrAt mem 0 s) (h4 : 4 ≤ s.length) (hl : s.length < 256) :
    ∃ reads, Within s.length reads ∧
      getUrl mem = if s.length < 192 ∧ EndsInHex s then splitUrl mem reads else useDefault reads := by
  have hr₁ : Within s.length (strnlenReads mem 0 256) := within_search (i := 0) h rfl hl (by omega)
  have hr₂ : Within s.length (strcasecmpReads mem hexEnding ((s.length : Int) - 4)) := by
    intro x hx
    have := mem_strcasecmpReads hx
    rw [show hexEnding.length = 4 from rfl] at this
    omega
  unfold getUrl
  rw [h.strnlen_eq hl, Nat.mod_eq_of_lt hl]
  simp only [strcasecmp_ending h h4]
  by_cases hlen : s.length < 64 + 128
  · by_cases hhex : EndsInHex s
    · refine ⟨_, hr₁.append hr₂, ?_⟩
      rw [if_pos hlen, if_pos hhex, if_pos ⟨hlen, hhex⟩]
    · refine ⟨_, hr₁.append hr₂, ?_⟩
      rw [if_pos hlen, if_neg hhex, if_neg fun h => hhex h.2]
  · refine ⟨_, hr₁, ?_⟩
    rw [if_neg hlen, if_neg fun h => hlen h.1]

end String

/-! ## 4. Every content of the slot -/

section Slot

variable (url : Slot) (around : Memory)

theorem bytesFrom_slot : bytesFrom (url.inMemory around) 256 0 = url.toList := by
  refine List.ext_getElem? fun k => ?_
  by_cases hk : k < 256
  · rw [getElem?_bytesFrom hk, List.getElem?_eq_getElem (by rw [Vector.length_toList]; exact hk)]
    unfold Slot.inMemory
    rw [dif_pos (by omega)]
    simp [Vector.get]
  · rw [List.getElem?_eq_none (by rw [length_bytesFrom]; omega),
      List.getElem?_eq_none (by rw [Vector.length_toList]; omega)]

theorem text_eq : url.text = bytesFrom (url.inMemory around) (strnlen (url.inMemory around) 0 256) 0 := by
  rw [strnlen, bytesFrom_span, bytesFrom_slot]
  unfold Slot.text
  congr 1
  funext b
  by_cases hb : b = 0 <;> simp [isNul, hb]

theorem strnlen_slot : strnlen (url.inMemory around) 0 256 = url.text.length := by
  rw [text_eq url around, length_bytesFrom]

theorem text_le : url.text.length ≤ 256 := by
  have := (List.takeWhile_prefix (l := url.toList) (· ≠ 0)).length_le
  rwa [Vector.length_toList] at this

theorem cStrAt_slot (h : url.text.length < 256) : CStrAt (url.inMemory around) 0 url.text := by
  rw [text_eq url around]
  exact cStrAt_span ((strnlen_slot url around).trans_lt h)

variable {url around}

theorem splitUrl_reads {mem : Memory} {reads : List Int} {i : Int} (h : i ∈ reads) :
    i ∈ (splitUrl mem reads).reads := by
  unfold splitUrl
  have hmore : ∀ l : List Int, i ∈ reads ++ l := fun l => List.mem_append_left l h
  simp only [useDefault]
  split
  · exact hmore _
  · split
    · split
      · simp only [List.append_assoc]
        exact hmore _
      · simp only [List.append_assoc]
        exact hmore _
    · simp only [List.append_assoc]
      exact hmore _

/-- The ending is looked for at `url_len-4`, whatever `url_len` is. -/
theorem getUrl_reads (mem : Memory) (h : strnlen mem 0 256 % 256 < 192) :
    ((strnlen mem 0 256 % 256 : Nat) : Int) - 4 ∈ (getUrl mem).reads := by
  have hfirst : ((strnlen mem 0 256 % 256 : Nat) : Int) - 4 ∈
      strcasecmpReads mem hexEnding (((strnlen mem 0 256 % 256 : Nat) : Int) - 4) := List.mem_cons_self
  unfold getUrl
  simp only []
  rw [if_pos h]
  split
  · exact splitUrl_reads (List.mem_append_right _ hfirst)
  · exact List.mem_append_right _ hfirst

/-- A length of less than four, or none: four bytes before it is outside. -/
theorem text_of_reads (h : ∀ i ∈ (getUrl (url.inMemory around)).reads, 0 ≤ i ∧ i < 256) :
    4 ≤ url.text.length ∧ url.text.length < 256 := by
  have hle := text_le url
  by_contra hbad
  have hlen : url.text.length % 256 < 4 := by omega
  have hread := getUrl_reads (url.inMemory around) (by rw [strnlen_slot]; omega)
  rw [strnlen_slot] at hread
  have := h _ hread
  omega

theorem urlSafe_default {reads : List Int} (h : Within url.text.length reads) (hl : url.text.length < 256) :
    UrlSafe url (useDefault reads) where
  reads i hi := by
    have := h i hi
    omega
  kHostname := by
    show defaultHostname.length ≤ 64
    decide +kernel
  kPath := by
    show defaultPath.length ≤ 128
    decide +kernel
  content := .inl ⟨rfl, rfl⟩

/-- The parts of a string, written where there is room for them. -/
theorem urlSafe_parts {reads : List Int} {host path : List UInt8} (h : Within url.text.length reads)
    (hl : url.text.length < 256) (htext : url.text = host ++ slash :: path) (hslash : slash ∉ host)
    (hhex : EndsInHex url.text) (hhost : host.length < 64) (hpath : path.length < 127) :
    UrlSafe url ⟨reads, host ++ [0], slash :: path ++ [0]⟩ where
  reads i hi := by
    have := h i hi
    omega
  kHostname := by
    show (host ++ [0]).length ≤ 64
    rw [List.length_append, List.length_singleton]
    omega
  kPath := by
    show (slash :: path ++ [0]).length ≤ 128
    rw [List.length_append, List.length_cons, List.length_singleton]
    omega
  content := .inr ⟨host, path, rfl, rfl, hslash, htext, hl, hhex⟩

/-- 127 characters pass the test, and with the slash and the terminator they are 129 bytes. -/
theorem path_of_safe (h : UrlSafe url (getUrl (url.inMemory around))) (h4 : 4 ≤ url.text.length)
    (hlen : url.text.length < 192) (hhex : EndsInHex url.text) {host path : List UInt8}
    (htext : url.text = host ++ slash :: path) (hslash : slash ∉ host) : path.length ≠ 127 := by
  intro hpath
  have hl : url.text.length < 256 := hlen.trans (by decide)
  have hstr := cStrAt_slot url around hl
  obtain ⟨reads, hr, hget⟩ := getUrl_string hstr h4 hl
  rw [htext] at hstr hr hl
  obtain ⟨reads', -, hsplit⟩ := splitUrl_some hstr hslash hl hr
  have hhost : host.length < 64 := by
    rw [htext, List.length_append, List.length_cons] at hlen
    omega
  have hwritten := h.kPath
  rw [hget, if_pos ⟨hlen, hhex⟩, hsplit, if_pos ⟨hhost, by omega⟩] at hwritten
  simp only [List.cons_append, List.length_cons, List.length_append, List.length_nil] at hwritten
  omega

theorem urlSafe_of_sound (h : UrlSound url) : UrlSafe url (getUrl (url.inMemory around)) := by
  obtain ⟨h4, hl, hpath⟩ := h
  have hstr := cStrAt_slot url around hl
  obtain ⟨reads, hr, hget⟩ := getUrl_string hstr h4 hl
  rw [hget]
  by_cases htake : url.text.length < 192 ∧ EndsInHex url.text
  · rw [if_pos htake]
    by_cases hslash : slash ∈ url.text
    · obtain ⟨host, path, htext, hnot⟩ := List.eq_append_cons_of_mem hslash
      rw [htext] at hstr hr
      obtain ⟨reads', hr', hsplit⟩ := splitUrl_some hstr hnot (htext ▸ hl) hr
      rw [hsplit]
      rw [← htext] at hr'
      by_cases hparts : host.length < 64 ∧ path.length < 128
      · rw [if_pos hparts]
        have hne : path.length ≠ 127 := fun h => hpath ⟨htake.1, htake.2, host, path, htext, hnot, h⟩
        exact urlSafe_parts hr' hl htext hnot htake.2 hparts.1 (by omega)
      · rw [if_neg hparts]
        exact urlSafe_default hr' hl
    · obtain ⟨reads', hr', hsplit⟩ := splitUrl_none hstr hslash hl hr
      rw [hsplit]
      exact urlSafe_default hr' hl
  · rw [if_neg htake]
    exact urlSafe_default hr hl

/-- **The call is safe exactly for the slots that hold what it was made for.** -/
theorem urlSafe_iff (url : Slot) (around : Memory) : UrlSafe url (getUrl (url.inMemory around)) ↔ UrlSound url := by
  constructor
  · intro h
    obtain ⟨h4, hl⟩ := text_of_reads h.reads
    refine ⟨h4, hl, ?_⟩
    rintro ⟨hlen, hhex, host, path, htext, hslash, hpath⟩
    exact path_of_safe h h4 hlen hhex htext hslash hpath
  · exact urlSafe_of_sound

end Slot

/-- A slot that was never written. -/
def erasedSlot : Slot := Vector.replicate 256 0xFF

/-- **With an erased slot, four bytes before the array are read.** -/
theorem erased_reads : -4 ∈ (getUrl (erasedSlot.inMemory fun _ => 0)).reads ∧
    ¬ UrlSafe erasedSlot (getUrl (erasedSlot.inMemory fun _ => 0)) := by
  have htext : erasedSlot.text.length = 256 := by decide +kernel
  have hread : -4 ∈ (getUrl (erasedSlot.inMemory fun _ => 0)).reads := by
    have h := getUrl_reads (erasedSlot.inMemory fun _ => 0) (by rw [strnlen_slot, htext]; decide)
    rwa [strnlen_slot, htext] at h
  exact ⟨hread, fun h => absurd (h.reads _ hread).1 (by decide)⟩

end SmartHome.Firmware
