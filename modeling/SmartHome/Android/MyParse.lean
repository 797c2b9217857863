/-
  Subject:   WHAT THE PHONE MAKES OF A LINE: MyParse.java, MyParseCommon.java and the loop of MyClient.java.

  The client cuts a line at white space and takes the words by their number. The first word, or rather
  the beginning of the line, says what to do: report a login, record a state, append a message. A word
  that is not there is an exception, and an exception ends the connection.

  * `Platform` -- what Java and Android decide: the character set, white space, upper and lower case;
  * `MyParse` -- the two lists and what was posted to the handler; `userOrNodeinfoparse`,
    `onlyUpdateNodeState`, `chatparse`, `loginparse` on it;
  * `parse`, `turn` -- a line, and the turn of the loop that reads it;
  * `protocolList_line` and the lemmas below it -- what `parse` does with a line by its first word.
-/
import SmartHome.Lib.Splitting
import SmartHome.Chat.Directory

namespace SmartHome.Android

open SmartHome.Lib
open SmartHome.Chat (Bytes)

/-! ## 1. Strings -/

/-- A Java string. -/
abbrev Str := List Char

/-- What the platform decides: how the reader makes characters of bytes (`InputStreamReader`), which of
    them `\s` matches, and `equalsIgnoreCase`. An ASCII byte is a character of its own wherever it
    stands; blanks and line ends are white space, the printed ASCII characters are not. -/
structure Platform where
  decode : Bytes → Str
  decode_nil : decode [] = []
  decode_ascii : ∀ (a : Bytes) (x : UInt8) (b : Bytes), x.toNat < 128 →
    decode (a ++ x :: b) = decode a ++ Char.ofNat x.toNat :: decode b
  isSpace : Char → Bool
  isSpace_blank : isSpace ' ' = true
  isSpace_eol : ∀ c, c = '\r' ∨ c = '\n' → isSpace c = true
  isSpace_graphic : ∀ c, 0x21 ≤ c.toNat → c.toNat < 0x7F → isSpace c = false
  equalsIgnoreCase : Str → Str → Bool

/-- The characters of a literal. -/
def asciiText (s : Bytes) : Str := s.map fun x => Char.ofNat x.toNat

/-- One character a byte, and the white space of the class `\s`. -/
def latin1 : Platform where
  decode := asciiText
  decode_nil := rfl
  decode_ascii a x b _ := List.map_append
  isSpace c := [0x20, 0x09, 0x0A, 0x0B, 0x0C, 0x0D].contains c.toNat
  isSpace_blank := by decide
  isSpace_eol c hc := by
    rcases hc with rfl | rfl <;> decide
  isSpace_graphic c hlow _ := by
    refine Bool.eq_false_iff.mpr fun hmem => ?_
    have hblank := List.contains_iff_mem.mp hmem
    simp only [List.mem_cons, List.not_mem_nil, or_false] at hblank
    omega
  equalsIgnoreCase s t := s.map Char.toLower == t.map Char.toLower

/-- `startsWith`. -/
def startsWith (s t : Str) : Bool := t.isPrefixOf s

/-- `trim` takes everything up to the blank off both ends. -/
def trim (s : Str) : Str := trimBy (fun c => decide (c.toNat ≤ 0x20)) s

/-- `readLine`: a line ends at CR or LF. -/
def readLine (s : Str) : Str := s.takeWhile fun c => c ≠ '\r' ∧ c ≠ '\n'

/-! ## 2. MyParseCommon.java -/

/-- `getValueFromMessageByName`: `some none` is null, `none` an exception. -/
def getValueFromMessageByName (message name : Str) : Option (Option Str) :=
  match (splitRuns (fun c => c == ',') message).find? fun item => startsWith item name with
  | none => some none
  | some item => ((splitRuns (fun c => c == '=') item)[1]?).map fun value => some (trim value)

/-- `getRealMessageFromMessage`: all behind the first comma, or all if there is none. -/
def getRealMessageFromMessage (message : Str) : Str :=
  message.drop (if ',' ∈ message then message.idxOf ',' + 1 else 0)

/-! ## 3. MyParse.java: the lists -/

/-- An entry. `messagesize` is the decimal text of an `int`; the name can be null. -/
structure Item where
  parentname : Str
  name : Option Str
  messagesize : Int32
  messages : List Str
  line : Str
  deriving DecidableEq

/-- One of the two lists. -/
inductive MyList where
  | userList
  | nodeList
  deriving DecidableEq

/-- A message to the handler; the text of `MSG_CHAT_UPDATE` is the name, a colon and the message. -/
inductive Posted where
  | loginSuccess (obj : Str)
  | loginUserid (obj : Str)
  | loginFailure (obj : Str)
  | userNodeInfoUpdate (mylist : MyList)
  | chatUpdate (name : Option Str) (message : Str)
  deriving DecidableEq

/-- The two lists, each entry under its name, and what was posted. -/
structure MyParse where
  userList : List Item
  nodeList : List Item
  posted : List Posted
  deriving DecidableEq

namespace MyParse

/-- Nothing recorded yet. -/
def fresh : MyParse := ⟨[], [], []⟩

def get (c : MyParse) : MyList → List Item
  | .userList => c.userList
  | .nodeList => c.nodeList

def set (c : MyParse) : MyList → List Item → MyParse
  | .userList, l => { c with userList := l }
  | .nodeList, l => { c with nodeList := l }

/-- `obtainMessage(…).sendToTarget()`. -/
def post (c : MyParse) (m : Posted) : MyParse := { c with posted := c.posted ++ [m] }

/-- The entry under a name. -/
def lookup (c : MyParse) (mylist : MyList) (name : Option Str) : Option Item :=
  (c.get mylist).find? fun x => x.name == name

end MyParse

/-- `insertNewUserOrNode`. -/
def insertNewUserOrNode (l : List Item) (parentname : Str) (name : Option Str) (message : Str) : List Item :=
  l ++ [⟨parentname, name, 0, [], message⟩]

/-- `userOrNodeinfoparse`. -/
def userOrNodeinfoparse (mylist : MyList) (parentname : Str) (name : Option Str) (message : Str) (c : MyParse) :
    MyParse :=
  let l := c.get mylist
  let l := if l.any fun x => x.name == name then
      modifyFirst (fun x => x.name == name) (fun x => { x with line := message }) l
    else insertNewUserOrNode l parentname name message
  (c.set mylist l).post (.userNodeInfoUpdate mylist)

/-- `onlyUpdateNodeState`. -/
def onlyUpdateNodeState (j : Platform) (mylist : MyList) (parentname message : Str) (c : MyParse) : MyParse :=
  if j.equalsIgnoreCase message "on".toList then c
  else ((c.get mylist).filter fun x => j.equalsIgnoreCase parentname x.parentname).foldl
    (fun c x => userOrNodeinfoparse mylist parentname x.name message c) c

/-- `chatparse`. -/
def chatparse (mylist : MyList) (parentname : Str) (name : Option Str) (message : Str) (c : MyParse) : MyParse :=
  let c := userOrNodeinfoparse mylist parentname name "on".toList c
  let l := modifyFirst (fun x => x.name == name)
    (fun x => { x with messagesize := x.messagesize + 1, messages := x.messages ++ [message] }) (c.get mylist)
  (c.set mylist l).post (.chatUpdate name message)

/-! ## 4. MyParse.java: the line -/

/-- `loginparse`; an error is an exception, with what had been done before it. -/
def loginparse (protocolList : List Str) (c : MyParse) : Except MyParse MyParse :=
  match protocolList[0]? with
  | none => .error c
  | some outcome =>
    if startsWith outcome "ok".toList then
      let c := c.post (.loginSuccess "ok".toList)
      match protocolList[1]? with
      | none => .error c
      | some userid => .ok (c.post (.loginUserid userid))
    else if startsWith outcome "fail".toList then
      match protocolList[1]? with
      | none => .error c
      | some why => .ok (c.post (.loginFailure why))
    else .ok c

/-- What one part of a node's message says: the name, which can be null, and the rest. -/
def readPart (part : Str) : Option (Option Str × Str) :=
  (getValueFromMessageByName part "name".toList).map fun name => (name, getRealMessageFromMessage part)

/-- The loop over the parts of a node's message. -/
def parseParts (parentname : Str) : List Str → MyParse → Except MyParse MyParse
  | [], c => .ok c
  | part :: parts, c =>
    match readPart (trim part) with
    | none => .error c
    | some (name, message) => parseParts parentname parts (chatparse .nodeList parentname name message c)

/-- `protocolList`: the words of the line but the first. -/
def protocolList (j : Platform) (line : Str) : List Str := ((splitRuns j.isSpace line).drop 1).map trim

/-- What `parse` does with the second and the third word of a line that is not of a login. -/
def dispatch (j : Platform) (line name messages : Str) (c : MyParse) : Except MyParse MyParse :=
  if startsWith line "userinfo".toList then .ok (userOrNodeinfoparse .userList name (some name) messages c)
  else if startsWith line "nodeinfo".toList then .ok (onlyUpdateNodeState j .nodeList name messages c)
  else if startsWith line "user".toList then .ok (chatparse .userList name (some name) messages c)
  -- for other lines the loop over the parts does nothing
  else if startsWith line "node".toList then parseParts name (splitEach ';' messages) c
  else .ok c

/-- The body of `parse`. -/
def parseLine (j : Platform) (line : Str) (c : MyParse) : Except MyParse MyParse :=
  let l := protocolList j line
  if l.isEmpty then .ok c
  else if startsWith line "login".toList then loginparse l c
  else
    match l[1]?, l[2]? with
    | some name, some messages => dispatch j line name messages c
    | _, _ => .error c

/-- `parse`. -/
def parse (j : Platform) (line : Str) (c : MyParse) : Int × MyParse :=
  match parseLine j line c with
  | .ok c => (0, c)
  | .error c => (1, c)

/-- One turn of the inner loop of `MyClient.start`: whether it goes on. -/
def turn (j : Platform) (msg : Str) (c : MyParse) : Bool × MyParse :=
  if msg.length < 3 then (false, c)
  else
    let r := parse j msg c
    (decide (r.1 ≠ 1), r.2)

theorem parse_zero_iff {j : Platform} {line : Str} {c c' : MyParse} :
    parse j line c = (0, c') ↔ parseLine j line c = .ok c' := by
  unfold parse
  cases parseLine j line c with
  | ok | error => simp

/-- A line that is long enough keeps the connection if `parse` returns 0. -/
theorem turn_of_parse {j : Platform} {line : Str} {c c' : MyParse} (hlen : 3 ≤ line.length)
    (h : parse j line c = (0, c')) : turn j line c = (true, c') := by
  unfold turn
  rw [if_neg (Nat.not_lt.mpr hlen), h]
  rfl

/-! ## 5. Words of a line -/

section Words

variable {j : Platform}

/-- Printed ASCII characters, at least one. -/
def Graphic (s : Str) : Prop := s ≠ [] ∧ s.all (fun c => decide (0x21 ≤ c.toNat ∧ c.toNat < 0x7F)) = true

instance (s : Str) : Decidable (Graphic s) := inferInstanceAs (Decidable (_ ∧ _))

theorem Graphic.bounds {s : Str} (h : Graphic s) {c : Char} (hc : c ∈ s) : 0x21 ≤ c.toNat ∧ c.toNat < 0x7F :=
  of_decide_eq_true (List.all_eq_true.mp h.2 c hc)

/-- A word that `trim` leaves as it is. -/
structure Platform.Plain (j : Platform) (s : Str) : Prop where
  nonempty : s ≠ []
  noSpace : ∀ c ∈ s, j.isSpace c = false
  trimmed : trim s = s

theorem Graphic.plain {s : Str} (h : Graphic s) : j.Plain s where
  nonempty := h.1
  noSpace c hc := j.isSpace_graphic c (h.bounds hc).1 (h.bounds hc).2
  trimmed := trimBy_eq_self fun _ hc => decide_eq_false (Nat.not_le.mpr (h.bounds hc).1)

/-- White space, or nothing, comes next. -/
def Platform.Ends (j : Platform) (s : Str) : Prop := ∀ c ∈ s.head?, j.isSpace c = true

theorem ends_blank (s : Str) : j.Ends (' ' :: s) := fun c hc => by
  cases hc
  exact j.isSpace_blank

theorem words_plain {s t : Str} (hs : j.Plain s) (ht : j.Ends t) :
    words j.isSpace (s ++ t) = s :: words j.isSpace t := words_word hs.nonempty hs.noSpace ht

theorem words_blank (s : Str) : words j.isSpace (' ' :: s) = words j.isSpace s := words_sep j.isSpace_blank s

/-- **The words of a line**, the first of them dropped. -/
theorem protocolList_line {tag outcome : Str} (htag : Graphic tag) (houtcome : Graphic outcome) (s : Str) :
    protocolList j (tag ++ ' ' :: (outcome ++ ' ' :: s)) = outcome :: (words j.isSpace s).map trim := by
  have htag : j.Plain tag := htag.plain
  have houtcome : j.Plain outcome := houtcome.plain
  unfold protocolList
  rw [splitRuns_word htag.nonempty htag.noSpace (ends_blank _), words_blank, words_plain houtcome (ends_blank _),
    words_blank]
  show (outcome :: words j.isSpace s).map trim = _
  rw [List.map_cons, houtcome.trimmed]

theorem readLine_append {s : Str} (hs : ∀ c ∈ s, j.isSpace c = false) (t : Str) :
    readLine (s ++ t) = s ++ readLine t := by
  refine List.takeWhile_append_of_pos fun c hc => decide_eq_true ⟨fun he => ?_, fun he => ?_⟩
  · exact absurd ((j.isSpace_eol c (.inl he)).symm.trans (hs c hc)) Bool.noConfusion
  · exact absurd ((j.isSpace_eol c (.inr he)).symm.trans (hs c hc)) Bool.noConfusion

theorem ends_readLine {t : Str} (ht : j.Ends t) : j.Ends (readLine t) := by
  cases t with
  | nil => exact ht
  | cons c t =>
    intro d hd
    unfold readLine at hd
    rw [List.takeWhile_cons] at hd
    split at hd
    · cases hd
      exact ht c rfl
    · exact absurd hd (by simp)

/-- What is read of a line whose next word is a plain one. -/
theorem words_readLine {s t : Str} (hs : j.Plain s) (ht : j.Ends t) :
    words j.isSpace (readLine (s ++ t)) = s :: words j.isSpace (readLine t) := by
  rw [readLine_append hs.noSpace, words_plain hs (ends_readLine ht)]

/-- A name that is read as it was written is a plain one. -/
theorem plain_of_word {s t : Str} (hs : s ≠ []) (ht : j.Ends t)
    (h : ((words j.isSpace (readLine (s ++ t))).map trim)[0]? = some s) : j.Plain s := by
  rw [List.getElem?_map] at h
  obtain ⟨w, hw, htrim⟩ := Option.map_eq_some_iff.mp h
  -- what `trim` leaves of a word has no white space
  have hspace : ∀ c ∈ s, j.isSpace c = false := by
    intro c hc
    rw [← htrim] at hc
    exact not_sep_of_mem_words (List.mem_of_getElem? hw) c (mem_of_mem_trimBy hc)
  rw [readLine_append hspace, words_word hs hspace (ends_readLine ht), List.getElem?_cons_zero] at hw
  cases hw
  exact ⟨hs, hspace, htrim⟩

/-! ### Lines with their ends -/

theorem ends_eol : j.Ends "\r\n".toList := fun c hc => j.isSpace_eol c (by cases hc; exact .inl rfl)

theorem words_last {s : Str} (hs : j.Plain s) : words j.isSpace (readLine (s ++ "\r\n".toList)) = [s] := by
  rw [words_readLine hs ends_eol]
  rfl

theorem words_pair {s t : Str} (hs : j.Plain s) :
    words j.isSpace (readLine (s ++ ' ' :: t ++ "\r\n".toList)) =
      s :: words j.isSpace (readLine (t ++ "\r\n".toList)) := by
  have hblank : readLine (' ' :: (t ++ "\r\n".toList)) = ' ' :: readLine (t ++ "\r\n".toList) := rfl
  rw [List.append_assoc, List.cons_append, words_readLine hs (ends_blank _), hblank, words_blank]

theorem words_noName (t : Str) : words j.isSpace (readLine ([] ++ ' ' :: t ++ "\r\n".toList)) =
    words j.isSpace (readLine (t ++ "\r\n".toList)) := words_blank (readLine (t ++ "\r\n".toList))

end Words

/-! ## 6. Lines by their first word -/

section Lines

variable {j : Platform} {outcome : Str}

/-- `login ok` and the next word. -/
theorem parseLine_loginOk (s : Str) (c : MyParse) :
    parseLine j ("login".toList ++ ' ' :: ("ok".toList ++ ' ' :: s)) c = match ((words j.isSpace s).map trim)[0]? with
      | none => .error (c.post (.loginSuccess "ok".toList))
      | some userid => .ok ((c.post (.loginSuccess "ok".toList)).post (.loginUserid userid)) := by
  unfold parseLine
  rw [protocolList_line (by decide) (by decide)]
  rfl

/-- `login fail` and the next word. -/
theorem parseLine_loginFail (s : Str) (c : MyParse) :
    parseLine j ("login".toList ++ ' ' :: ("fail".toList ++ ' ' :: s)) c =
      match ((words j.isSpace s).map trim)[0]? with
      | none => .error c
      | some why => .ok (c.post (.loginFailure why)) := by
  unfold parseLine
  rw [protocolList_line (by decide) (by decide)]
  rfl

/-- Any other line needs two more words. -/
theorem parseLine_words {tag : Str} (htag : Graphic tag) (houtcome : Graphic outcome)
    (hlogin : ∀ t, startsWith (tag ++ t) "login".toList = false) (s : Str) (c : MyParse) :
    parseLine j (tag ++ ' ' :: (outcome ++ ' ' :: s)) c =
      match ((words j.isSpace s).map trim)[0]?, ((words j.isSpace s).map trim)[1]? with
      | some name, some messages => dispatch j (tag ++ ' ' :: (outcome ++ ' ' :: s)) name messages c
      | _, _ => .error c := by
  unfold parseLine
  rw [protocolList_line htag houtcome, hlogin]
  rfl

theorem dispatch_chat (s name messages : Str) (c : MyParse) :
    dispatch j ("chat".toList ++ s) name messages c = .ok c := rfl

theorem dispatch_node (s name messages : Str) (c : MyParse) :
    dispatch j ("node".toList ++ ' ' :: s) name messages c = parseParts name (splitEach ';' messages) c := rfl

theorem dispatch_userinfo (s name messages : Str) (c : MyParse) :
    dispatch j ("userinfo".toList ++ s) name messages c =
      .ok (userOrNodeinfoparse .userList name (some name) messages c) := rfl

theorem dispatch_nodeinfo (s name messages : Str) (c : MyParse) :
    dispatch j ("nodeinfo".toList ++ s) name messages c = .ok (onlyUpdateNodeState j .nodeList name messages c) := rfl

end Lines

end SmartHome.Android
