/-
  Subject:   DOES THE PHONE UNDERSTAND THE SERVER? Every line of the chat module, read by `parse`.

  The server and the phone were changed one without the other. What is said comes with the tag `chat`,
  but the phone looks for `user`; an error line has two words behind its tag, but the phone takes the
  third; a node that comes in is not noted until it speaks. And the phone cuts at white space what the
  server passes on as it is. What is left are the logins, the states of users and the reports of nodes,
  as long as the names and the reports are plain.

  * `heard`, `heard_push` -- what arrives of a line, word by word;
  * `Updated`, `Agrees` -- what a line asks for, and that the phone does it;
  * `Understood` -- the lines the phone understands;
  * one lemma for each kind of line, and **`lines_understood`** for all of them;
    `aliceHello_lost` -- a word of greeting that is lost.
-/
import SmartHome.Android.NodeReports
import SmartHome.Chat.Pushes

namespace SmartHome.Android

open SmartHome.Lib
open SmartHome.Chat (Bytes bytes Reply Push LoginError ChatError Line chatLine)

/-! ## 1. What arrives of a line -/

/-- ASCII bytes only. -/
def Ascii (s : Bytes) : Prop := s.all (fun x => decide (x.toNat < 128)) = true

instance (s : Bytes) : Decidable (Ascii s) := inferInstanceAs (Decidable (_ = _))

/-- What `readLine` returns of the bytes of a reply. -/
def heard (j : Platform) (r : Reply) : Str := readLine (j.decode r.text)

section Decode

variable {j : Platform}

theorem decode_literal {lit : Bytes} (hlit : Ascii lit) (b : Bytes) :
    j.decode (lit ++ b) = asciiText lit ++ j.decode b := by
  induction lit with
  | nil => rfl
  | cons x lit ih =>
    obtain ⟨hfirst, hrest⟩ : decide (x.toNat < 128) = true ∧ Ascii lit := by
      unfold Ascii at hlit
      rw [List.all_cons, Bool.and_eq_true] at hlit
      exact hlit
    have hx := j.decode_ascii [] x (lit ++ b) (of_decide_eq_true hfirst)
    rw [List.nil_append, j.decode_nil, List.nil_append, ih hrest] at hx
    exact hx

theorem decode_ascii_text {lit : Bytes} (hlit : Ascii lit) : j.decode lit = asciiText lit := by
  have hwhole := decode_literal (j := j) hlit []
  rw [List.append_nil, j.decode_nil, List.append_nil] at hwhole
  exact hwhole

theorem decode_blank (a b : Bytes) : j.decode (a ++ (bytes " " ++ b)) = j.decode a ++ ' ' :: j.decode b :=
  j.decode_ascii a 0x20 b (by decide)

theorem decode_eol (a : Bytes) : j.decode (a ++ bytes "\r\n") = j.decode a ++ "\r\n".toList := by
  have hlf : j.decode [0x0A] = ['\n'] := decode_ascii_text (by decide)
  have hcr := j.decode_ascii a 0x0D [0x0A] (by decide)
  rw [hlf] at hcr
  exact hcr

/-- A line that begins with two literal words. -/
theorem heard_line {r : Reply} {lit rest : Bytes} {tag outcome : Str} (htext : r.text = lit ++ rest)
    (hlit : Ascii lit) (hwords : asciiText lit = tag ++ ' ' :: (outcome ++ [' ']))
    (htag : Graphic tag) (houtcome : Graphic outcome) :
    heard j r = tag ++ ' ' :: (outcome ++ ' ' :: readLine (j.decode rest)) := by
  have hblank : ∀ s : Str, readLine (' ' :: s) = ' ' :: readLine s := fun _ => rfl
  unfold heard
  rw [htext, decode_literal hlit, hwords, List.append_assoc, List.cons_append, List.append_assoc,
    readLine_append (j := j) htag.plain.noSpace, hblank, readLine_append (j := j) houtcome.plain.noSpace]
  rfl

end Decode

/-! ## 2. The words of the lines -/

/-- The last word of an error line. -/
def loginWhy : LoginError → Bytes
  | .alreadyLogin => bytes "alreadyLogin"
  | .wrongNameOrPwd => bytes "wrongNameOrPasswd"
  | .tooManyNodes => bytes "tooManyNode"

def chatWhy : ChatError → Bytes
  | .invalidUser => bytes "invalidUser"
  | .tooBigMsg => bytes "tooBigMessage"

/-- The first word of a line. -/
def tag : Push → Str
  | .loginOk _ | .loginFail _ => "login".toList
  | .chatOk _ _ | .chatFail _ => "chat".toList
  | .nodeOk _ _ | .nodeFail => "node".toList
  | .userinfo _ _ | .userListed _ _ => "userinfo".toList
  | .nodeinfo _ _ | .nodeListed _ _ => "nodeinfo".toList

/-- The second word. -/
def outcome : Push → Str
  | .loginFail _ | .chatFail _ | .nodeFail => "fail".toList
  | .loginOk _ | .chatOk _ _ | .nodeOk _ _ | .userinfo _ _ | .userListed _ _ | .nodeinfo _ _ | .nodeListed _ _ =>
    "ok".toList

/-- Both, as the server writes them. -/
def head : Push → Bytes
  | .loginOk _ => bytes "login ok "
  | .loginFail _ => bytes "login fail "
  | .chatOk _ _ => bytes "chat ok "
  | .chatFail _ => bytes "chat fail "
  | .nodeOk _ _ => bytes "node ok "
  | .nodeFail => bytes "node fail "
  | .userinfo _ _ | .userListed _ _ => bytes "userinfo ok "
  | .nodeinfo _ _ | .nodeListed _ _ => bytes "nodeinfo ok "

/-- What follows, up to the line end. -/
def rest : Push → Bytes
  | .loginOk userid => userid
  | .loginFail why => loginWhy why
  | .chatOk source message | .nodeOk source message => source ++ (bytes " " ++ message)
  | .chatFail why => chatWhy why
  | .nodeFail => bytes "nologin"
  | .userinfo name line | .userListed name line | .nodeinfo name line | .nodeListed name line =>
    name ++ (bytes " " ++ line.text)

theorem tag_graphic (p : Push) : Graphic (tag p) := by
  unfold tag
  split <;> decide

theorem outcome_graphic (p : Push) : Graphic (outcome p) := by
  unfold outcome
  split <;> decide

theorem head_ascii (p : Push) : Ascii (head p) := by
  unfold head
  split <;> decide

theorem head_words (p : Push) : asciiText (head p) = tag p ++ ' ' :: (outcome p ++ [' ']) := by
  cases p <;> rfl

/-- All that goes out of the line was formatted. -/
def Stored (p : Push) : Prop := p.reply.len ≤ p.reply.text.length

theorem text_chatLine {tag source message : Bytes}
    (h : (chatLine tag source message).len ≤ (chatLine tag source message).text.length) :
    (chatLine tag source message).text =
      (tag ++ bytes " ok ") ++ ((source ++ (bytes " " ++ message)) ++ bytes "\r\n") := by
  rw [Chat.chatLine_whole h]
  show tag ++ bytes " ok " ++ source ++ bytes " " ++ message ++ bytes "\r\n" = _
  simp only [List.append_assoc]

theorem text_push {p : Push} (hp : Stored p) : p.reply.text = head p ++ (rest p ++ bytes "\r\n") := by
  cases p with
  | loginOk userid => exact List.append_assoc _ _ _
  | loginFail why => cases why <;> decide
  | chatOk source message => exact text_chatLine hp
  | chatFail why => cases why <;> decide
  | nodeOk source message => exact text_chatLine hp
  | nodeFail => decide
  | userinfo name line => exact text_chatLine hp
  | userListed name line =>
    show bytes "userinfo ok " ++ name ++ bytes " " ++ line.text ++ bytes "\r\n" = _
    simp only [head, rest, List.append_assoc]
  | nodeinfo name line => exact text_chatLine hp
  | nodeListed name line =>
    show bytes "nodeinfo ok " ++ name ++ bytes " " ++ line.text ++ bytes "\r\n" = _
    simp only [head, rest, List.append_assoc]

/-- **A line as it is read.** -/
theorem heard_push {j : Platform} {p : Push} (hp : Stored p) :
    heard j p.reply = tag p ++ ' ' :: (outcome p ++ ' ' :: readLine (j.decode (rest p) ++ "\r\n".toList)) := by
  rw [← decode_eol]
  exact heard_line (text_push hp) (head_ascii p) (head_words p) (tag_graphic p) (outcome_graphic p)

/-! ## 3. The matching update -/

/-- The messages of a user. -/
def messagesOf (c : MyParse) (name : Str) : List Str := ((c.lookup .userList (some name)).map Item.messages).getD []

/-- **What a line asks for**: report the outcome of a login; append what was said, whole, to the messages
    of the sender; record what a node reports under each name it gives; record the state of a user, and
    that of a node in every entry that belongs to it. An error line only asks to go on. -/
def Updated (j : Platform) (c c' : MyParse) : Push → Prop
  | .loginOk userid => c' = (c.post (.loginSuccess "ok".toList)).post (.loginUserid (j.decode userid))
  | .loginFail why => c' = c.post (.loginFailure (asciiText (loginWhy why)))
  | .chatOk source message =>
    ∃ x, c'.lookup .userList (some (j.decode source)) = some x ∧
      x.messages = messagesOf c (j.decode source) ++ [j.decode message]
  | .chatFail _ | .nodeFail => True
  | .nodeOk source message =>
    ∃ rs, Reports (j.decode message) rs ∧ c' = recordAll (j.decode source) (callsOf rs) c
  | .userinfo name line | .userListed name line =>
    ∃ x, c'.lookup .userList (some (j.decode name)) = some x ∧ x.line = asciiText line.text
  | .nodeinfo name line | .nodeListed name line =>
    (∃ x ∈ c'.nodeList, x.parentname = j.decode name) ∧
      ∀ x ∈ c'.nodeList, x.parentname = j.decode name → x.line = asciiText line.text

/-- **The phone understands a line**: it goes out as it was formatted, and whatever the phone has
    recorded before, `parse` returns 0, the connection is kept, and the line does what it asks for. -/
def Agrees (j : Platform) (p : Push) : Prop :=
  Stored p ∧ ∀ c, ∃ c', parse j (heard j p.reply) c = (0, c') ∧ turn j (heard j p.reply) c = (true, c') ∧
    Updated j c c' p

/-- **The lines the phone understands.** -/
def Understood (j : Platform) : Push → Prop
  | .loginOk userid => j.Plain (j.decode userid)
  | .loginFail _ => True
  | .nodeOk source message =>
    4 + source.length + message.length ≤ 1016 ∧ j.Plain (j.decode source) ∧ j.Readable (j.decode message)
  | .userinfo name line => 8 + name.length + line.text.length ≤ 1016 ∧ j.Plain (j.decode name)
  | .userListed name _ => j.Plain (j.decode name)
  | .chatOk _ _ | .chatFail _ | .nodeFail | .nodeinfo _ _ | .nodeListed _ _ => False

/-- The words of a line behind the second. -/
def fields (j : Platform) (p : Push) : List Str :=
  (words j.isSpace (readLine (j.decode (rest p) ++ "\r\n".toList))).map trim

section Agree

variable {j : Platform}

theorem agrees_iff {p : Push} : Agrees j p ↔ Stored p ∧ ∀ c, ∃ c',
    parseLine j (tag p ++ ' ' :: (outcome p ++ ' ' :: readLine (j.decode (rest p) ++ "\r\n".toList))) c = .ok c' ∧
      Updated j c c' p := by
  refine and_congr_right fun hp => forall_congr' fun c => exists_congr fun c' => ?_
  rw [heard_push hp, ← parse_zero_iff]
  refine ⟨fun h => ⟨h.1, h.2.2⟩, fun h => ⟨h.1, turn_of_parse ?_ h.1, h.2⟩⟩
  have htag := List.length_pos_iff.mpr (tag_graphic p).1
  have houtcome := List.length_pos_iff.mpr (outcome_graphic p).1
  simp only [List.length_append, List.length_cons]
  omega

theorem state_graphic (line : Line) : Graphic (asciiText line.text) := by
  cases line <;> decide

theorem decode_state (line : Line) : j.decode line.text = asciiText line.text := by
  cases line with
  | off | on => exact decode_ascii_text (by decide)

/-- A line that is no login needs two more words. -/
theorem parseLine_iff {p : Push} (hlogin : ∀ t, startsWith (tag p ++ t) "login".toList = false) {c c' : MyParse} :
    parseLine j (tag p ++ ' ' :: (outcome p ++ ' ' :: readLine (j.decode (rest p) ++ "\r\n".toList))) c = .ok c' ↔
      ∃ name messages, (fields j p)[0]? = some name ∧ (fields j p)[1]? = some messages ∧
        dispatch j (tag p ++ ' ' :: (outcome p ++ ' ' :: readLine (j.decode (rest p) ++ "\r\n".toList)))
          name messages c = .ok c' := by
  rw [parseLine_words (tag_graphic p) (outcome_graphic p) hlogin]
  unfold fields
  constructor
  · intro h
    split at h
    · rename_i name messages hname hmessages
      exact ⟨name, messages, hname, hmessages, h⟩
    · cases h
  · rintro ⟨name, messages, hname, hmessages, h⟩
    rw [hname, hmessages]
    exact h

/-- The words of a line with a name and a text. -/
theorem fields_pair {p : Push} {name text : Bytes} (hrest : rest p = name ++ (bytes " " ++ text))
    (hname : j.Plain (j.decode name)) :
    fields j p = j.decode name :: (words j.isSpace (readLine (j.decode text ++ "\r\n".toList))).map trim := by
  unfold fields
  rw [hrest, decode_blank, words_pair hname, List.map_cons, hname.trimmed]

/-- A name that is read as it was written. -/
theorem plain_of_field {p : Push} {name text : Bytes} (hrest : rest p = name ++ (bytes " " ++ text))
    (hne : j.decode name ≠ []) (h : (fields j p)[0]? = some (j.decode name)) : j.Plain (j.decode name) := by
  unfold fields at h
  rw [hrest, decode_blank, List.append_assoc] at h
  exact plain_of_word hne (ends_blank _) h

/-! ### Logins -/

theorem loginOk_agrees (userid : Bytes) : Agrees j (.loginOk userid) ↔ j.Plain (j.decode userid) := by
  rw [agrees_iff]
  constructor
  · intro h
    obtain ⟨c', hparse, hupdated⟩ := h.2 .fresh
    rw [show tag (.loginOk userid) = "login".toList from rfl, show outcome (.loginOk userid) = "ok".toList from rfl,
      parseLine_loginOk] at hparse
    split at hparse
    · cases hparse
    · rename_i word hword
      cases hparse
      obtain rfl : word = j.decode userid := by
        have hposted := congrArg MyParse.posted hupdated
        cases hposted
        rfl
      refine plain_of_word (fun hnil => ?_) ends_eol hword
      rw [show rest (.loginOk userid) = userid from rfl, hnil] at hword
      exact absurd hword (by simp [readLine, words_nil])
  · intro h
    refine ⟨Nat.le_refl _, fun c => ⟨_, ?_, rfl⟩⟩
    have hword : words j.isSpace (readLine (j.decode (rest (.loginOk userid)) ++ "\r\n".toList)) = [j.decode userid] :=
      words_last h
    rw [show tag (.loginOk userid) = "login".toList from rfl, show outcome (.loginOk userid) = "ok".toList from rfl,
      parseLine_loginOk, hword, List.map_singleton, h.trimmed]
    rfl

theorem loginFail_agrees (why : LoginError) : Agrees j (.loginFail why) := by
  have hascii : Ascii (loginWhy why) := by
    cases why <;> decide
  have hgraphic : Graphic (asciiText (loginWhy why)) := by
    cases why <;> decide
  have hword : words j.isSpace (readLine (j.decode (rest (.loginFail why)) ++ "\r\n".toList)) =
      [asciiText (loginWhy why)] := by
    rw [show j.decode (rest (.loginFail why)) = asciiText (loginWhy why) from decode_ascii_text hascii]
    exact words_last hgraphic.plain
  rw [agrees_iff]
  refine ⟨?_, fun c => ⟨_, ?_, rfl⟩⟩
  · cases why <;> exact Nat.le_refl _
  · rw [show tag (.loginFail why) = "login".toList from rfl, show outcome (.loginFail why) = "fail".toList from rfl,
      parseLine_loginFail, hword, List.map_singleton, (hgraphic.plain (j := j)).trimmed]
    rfl

/-! ### What is said -/

/-- A line of `chat` changes nothing. -/
theorem chatOk_lost (source message : Bytes) : ¬ Agrees j (.chatOk source message) := by
  intro h
  obtain ⟨c', hparse, x, hlookup, _⟩ := (agrees_iff.mp h).2 .fresh
  obtain ⟨_, _, _, _, hdispatch⟩ := (parseLine_iff fun _ => rfl).mp hparse
  cases (dispatch_chat _ _ _ _).symm.trans hdispatch
  exact absurd hlookup (Option.some_ne_none x).symm

/-- An error line has no third word behind its first. -/
theorem fail_drops {p : Push} (why : Bytes) (hlogin : ∀ t, startsWith (tag p ++ t) "login".toList = false)
    (hrest : rest p = why) (hascii : Ascii why) (hgraphic : Graphic (asciiText why)) : ¬ Agrees j p := by
  intro h
  obtain ⟨c', hparse, _⟩ := (agrees_iff.mp h).2 .fresh
  obtain ⟨_, _, _, hmessages, _⟩ := (parseLine_iff hlogin).mp hparse
  unfold fields at hmessages
  rw [hrest, decode_ascii_text hascii, words_last hgraphic.plain] at hmessages
  exact absurd hmessages (Option.some_ne_none _).symm

theorem chatFail_drops (why : ChatError) : ¬ Agrees j (.chatFail why) := by
  refine fail_drops (chatWhy why) (fun _ => rfl) rfl ?_ ?_
  · cases why <;> decide
  · cases why <;> decide

theorem nodeFail_drops : ¬ Agrees j .nodeFail :=
  fail_drops (bytes "nologin") (fun _ => rfl) rfl (by decide) (by decide)

/-! ### Who is there -/

/-- The state is in the entry of the name. -/
theorem userOrNodeinfoparse_line (mylist : MyList) (parentname : Str) (name : Option Str) (message : Str)
    (c : MyParse) :
    ∃ x, (userOrNodeinfoparse mylist parentname name message c).lookup mylist name = some x ∧ x.line = message := by
  have hlist : (userOrNodeinfoparse mylist parentname name message c).get mylist =
      if (c.get mylist).any fun x => x.name == name then
        modifyFirst (fun x => x.name == name) (fun x => { x with line := message }) (c.get mylist)
      else insertNewUserOrNode (c.get mylist) parentname name message := by
    cases mylist <;> rfl
  unfold MyParse.lookup
  rw [hlist]
  cases hfind : (c.get mylist).find? fun x => x.name == name with
  | some z =>
    have hz : (z.name == name) = true := List.find?_some (p := fun x : Item => x.name == name) hfind
    rw [if_pos (List.any_eq_true.mpr ⟨z, List.mem_of_find?_eq_some hfind, hz⟩),
      find?_modifyFirst (f := fun x : Item => { x with line := message }) fun _ => rfl, hfind]
    exact ⟨_, rfl, rfl⟩
  | none =>
    have hno : ¬ ((c.get mylist).any fun x => x.name == name) = true := fun hany => by
      obtain ⟨y, hy, hname⟩ := List.any_eq_true.mp hany
      exact List.find?_eq_none.mp hfind y hy hname
    unfold insertNewUserOrNode
    rw [if_neg hno, List.find?_append, hfind, Option.none_or]
    exact ⟨_, List.find?_cons_of_pos (beq_self_eq_true name), rfl⟩

/-- The state of a user is recorded exactly if the name is a plain word. -/
theorem userinfo_recorded {p : Push} {name : Bytes} {line : Line} (htag : tag p = "userinfo".toList)
    (hrest : rest p = name ++ (bytes " " ++ line.text)) (hupdated : ∀ c c', Updated j c c' p ↔
      ∃ x, c'.lookup .userList (some (j.decode name)) = some x ∧ x.line = asciiText line.text) :
    Agrees j p ↔ Stored p ∧ j.Plain (j.decode name) := by
  have hlogin : ∀ t, startsWith (tag p ++ t) "login".toList = false := by
    rw [htag]
    exact fun _ => rfl
  rw [agrees_iff]
  refine and_congr_right fun _ => ⟨fun h => ?_, fun h c => ?_⟩
  · obtain ⟨c', hparse, hstate⟩ := h .fresh
    obtain ⟨word, state, hword, hsecond, hdispatch⟩ := (parseLine_iff hlogin).mp hparse
    rw [htag, dispatch_userinfo] at hdispatch
    cases hdispatch
    obtain ⟨x, hlookup, _⟩ := (hupdated _ _).mp hstate
    obtain rfl : word = j.decode name := by
      have hname := List.find?_some hlookup
      have hmem := List.mem_of_find?_eq_some hlookup
      cases List.mem_singleton.mp hmem
      simpa using hname
    refine plain_of_field hrest (fun hnil => ?_) hword
    -- without a name the state is taken for one, and there is no state
    unfold fields at hsecond
    rw [hrest, decode_blank, hnil, decode_state, words_noName, words_last (state_graphic line).plain] at hsecond
    exact absurd hsecond (Option.some_ne_none _).symm
  · have hstate : (words j.isSpace (readLine (j.decode line.text ++ "\r\n".toList))).map trim =
        [asciiText line.text] := by
      rw [decode_state, words_last (state_graphic line).plain, List.map_singleton,
        ((state_graphic line).plain (j := j)).trimmed]
    obtain ⟨x, hx⟩ := userOrNodeinfoparse_line .userList (j.decode name) (some (j.decode name)) (asciiText line.text) c
    refine ⟨_, (parseLine_iff hlogin).mpr ⟨j.decode name, asciiText line.text, ?_, ?_, ?_⟩, (hupdated _ _).mpr ⟨x, hx⟩⟩
    · rw [fields_pair hrest h]
      rfl
    · rw [fields_pair hrest h, hstate]
      rfl
    · rw [htag, dispatch_userinfo]

theorem onlyUpdateNodeState_fresh (parentname message : Str) :
    onlyUpdateNodeState j .nodeList parentname message .fresh = .fresh := by
  unfold onlyUpdateNodeState
  split <;> rfl

/-- The state of a node is not recorded where there is no entry of it. -/
theorem nodeinfo_lost {p : Push} {name : Bytes} (htag : tag p = "nodeinfo".toList)
    (hupdated : ∀ c c', Updated j c c' p → ∃ x ∈ c'.nodeList, x.parentname = j.decode name) : ¬ Agrees j p := by
  intro h
  have hlogin : ∀ t, startsWith (tag p ++ t) "login".toList = false := by
    rw [htag]
    exact fun _ => rfl
  obtain ⟨c', hparse, hstate⟩ := (agrees_iff.mp h).2 .fresh
  obtain ⟨_, _, _, _, hdispatch⟩ := (parseLine_iff hlogin).mp hparse
  rw [htag, dispatch_nodeinfo, onlyUpdateNodeState_fresh] at hdispatch
  cases hdispatch
  obtain ⟨x, hx, _⟩ := hupdated _ _ hstate
  exact absurd hx List.not_mem_nil

/-! ### What nodes report -/

/-- **A message is recorded as reported exactly if it is readable.** -/
theorem nodeOk_agrees (source message : Bytes) :
    Agrees j (.nodeOk source message) ↔ Stored (.nodeOk source message) ∧ j.Plain (j.decode source) ∧
      j.Readable (j.decode message) := by
  have hrest : rest (.nodeOk source message) = source ++ (bytes " " ++ message) := rfl
  have htag : tag (.nodeOk source message) = "node".toList := rfl
  rw [agrees_iff]
  refine and_congr_right fun _ => ⟨fun h => ?_, fun h c => ?_⟩
  · obtain ⟨c', hparse, rs, hreports, hrecord⟩ := h .fresh
    obtain ⟨word, messages, hword, hmessages, hdispatch⟩ := (parseLine_iff fun _ => rfl).mp hparse
    rw [htag, dispatch_node, parseParts_ok] at hdispatch
    obtain ⟨calls, hcalls, rfl⟩ := hdispatch
    obtain ⟨t, ht⟩ := reports_start hreports
    obtain ⟨v, r, hcut, hstops, hplain, hfirst, v', rfl⟩ := first_message (j := j) t
    rw [← ht] at hcut hplain hfirst
    have hne : callsOf rs ≠ [] := by
      intro hnil
      have hlength := hreports.length_eq
      rw [List.map_eq_nil_iff.mp hnil, length_splitOn] at hlength
      exact absurd hlength (Nat.succ_ne_zero _)
    obtain ⟨rfl, rfl⟩ := recordAll_inj hne hrecord.symm
    have hsource : j.Plain (j.decode source) := by
      refine plain_of_field hrest (fun hnil => ?_) hword
      -- without a name the message is taken for one
      unfold fields at hword
      rw [hrest, decode_blank, hnil, words_noName, hfirst] at hword
      cases hword
    rw [fields_pair hrest hsource, List.getElem?_cons_succ, hfirst] at hmessages
    cases hmessages
    exact ⟨hsource, readable_of_calls hreports hcut hstops hplain hcalls⟩
  · obtain ⟨hsource, rs, hreports, hplain, hparts, hnames⟩ := h
    refine ⟨_, (parseLine_iff fun _ => rfl).mpr ⟨j.decode source, j.decode message, ?_, ?_, ?_⟩, rs, hreports, rfl⟩
    · rw [fields_pair hrest hsource]
      rfl
    · rw [fields_pair hrest hsource, words_last hplain, List.map_singleton, hplain.trimmed]
      rfl
    · obtain ⟨hne, hcalls⟩ := reports_read hreports hparts hnames
      rw [htag, dispatch_node, parseParts_ok, splitEach_eq hne]
      exact ⟨callsOf rs, hcalls, rfl⟩

/-! ### All of them -/

/-- A line is understood exactly if it is one of those. -/
theorem agrees_push (p : Push) : Agrees j p ↔ Understood j p := by
  cases p with
  | loginOk userid => exact loginOk_agrees userid
  | loginFail why => exact iff_of_true (loginFail_agrees why) trivial
  | chatOk source message => exact iff_of_false (chatOk_lost source message) id
  | chatFail why => exact iff_of_false (chatFail_drops why) id
  | nodeOk source message =>
    refine (nodeOk_agrees source message).trans (and_congr_left fun _ => ?_)
    exact Chat.chatLine_stored
  | nodeFail => exact iff_of_false nodeFail_drops id
  | userinfo name line =>
    refine (userinfo_recorded rfl rfl fun _ _ => Iff.rfl).trans (and_congr_left fun _ => ?_)
    exact Chat.chatLine_stored
  | userListed name line =>
    refine (userinfo_recorded rfl rfl fun _ _ => Iff.rfl).trans ?_
    exact and_iff_right (Nat.le_refl _)
  | nodeinfo | nodeListed => exact iff_of_false (nodeinfo_lost rfl fun _ _ h => h.1) id

end Agree

/-- **What the phone understands of the server.** Whatever happens on the server, what is queued for a
    client is a line of the chat module, but for what the client asks with `register` or `chat debug` and
    a last reply; and the phone understands such a line exactly if it reports a login, with a plain word
    for an id; or the state of a user with a plain word for a name; or what a node reports, readably. It
    never understands what users say, the state of a node, or an error line. -/
theorem lines_understood (j : Platform) :
    (∀ s e s', Chat.chatNext s e = some s' → ∀ i d d', s.client? i = some d → s'.client? i = some d' →
      Chat.Queued (fun r => (∃ p : Push, r = p.reply) ∨ (∃ last, e = .quit i last) ∨
        ∃ cmd env, e = .command i cmd env ∧ cmd.Other) d d') ∧ ∀ p : Push, Agrees j p ↔ Understood j p :=
  ⟨fun _ _ _ hs _ _ _ hd hd' => Chat.queued_pushes hs hd hd', agrees_push⟩

/-! ## 4. Hello -/

/-- Alice says hello to everybody. -/
def aliceHello : List Chat.Event :=
  [.connect 0, Chat.aliceLogin, .command 0 (.chat (bytes "say") (bytes "all") (bytes "hello")) Chat.openEnv]

/-- **Alice says hello, and her own phone does not know what to do with it**: `parse` returns 0, and nothing
    is recorded. -/
theorem aliceHello_lost : ∃ s d,
    runEvents Chat.chatNext (Chat.serverStart Chat.aliceRows) aliceHello = some s ∧ s.client? 0 = some d ∧
      (Push.chatOk (bytes "alice") (bytes "hello")).reply ∈ d.out ∧
      heard latin1 (Push.chatOk (bytes "alice") (bytes "hello")).reply = "chat ok alice hello".toList ∧
      parse latin1 "chat ok alice hello".toList .fresh = (0, .fresh) ∧
      ¬ Updated latin1 .fresh .fresh (.chatOk (bytes "alice") (bytes "hello")) := by
  refine ⟨_, _, rfl, rfl, ?_, by decide, by decide, ?_⟩
  · exact List.mem_append_right _ (List.mem_singleton_self _)
  · rintro ⟨x, hlookup, _⟩
    exact absurd hlookup (Option.some_ne_none x).symm

end SmartHome.Android
