/-
  Subject:   WHAT THE SERVER WRITES INTO ITS FIXED ARRAYS, with `sprintf` and `strcpy`.

  Names, passwords and emails come in with any length. They are copied into fields of 256 bytes and put
  into queries and replies in arrays of 256 bytes, and no length is looked at before. Whether a request
  stays within the arrays is decided by its own arguments and by the names the directory has taken over
  from earlier ones.

  * `Write` -- a write into an array; `Stored.writes` -- those of a command, branch by branch;
  * `Stored.Room` -- lengths that leave room;
  * **`writes_fit`** -- all writes of a command stay within their arrays exactly if there is room;
    `longName_overruns` -- a login that does not.
-/
import SmartHome.Chat.Overheard
import SmartHome.Chat.Sql
import Mathlib.Data.Nat.Digits.Defs

namespace SmartHome.Chat

open SmartHome.Lib

/-! ## 1. Writes -/

/-- A `sprintf` or `strcpy`: the size of the array, and the text; a zero byte follows the text. -/
structure Write where
  size : Nat
  text : Bytes

/-- It stays within the array. -/
def Write.Fits (w : Write) : Prop := w.text.length < w.size

/-- `MY_NAME_LENGTH`, and the size of the local buffers. -/
def name256 (text : Bytes) : Write := ⟨256, text⟩

/-- A query in a local buffer. -/
def query256 (st : Statement) : Write := ⟨256, st.text⟩

/-- `insertUserInfo`. -/
def Directory.insertUserInfoWrites (d : Directory) (userid username : Bytes) : List Write :=
  if d.dictFetchValue username ≠ none then [] else [name256 username, name256 userid, name256 (bytes "off")]

/-- `insertNodeToUserInfo`; the line of a node has 10 bytes. -/
def Directory.insertNodeToUserInfoWrites (d : Directory) (username nodename : Bytes) : List Write :=
  if (d.insertNodeToUserInfo username nodename).1 = 1 then [name256 nodename, ⟨10, bytes "off"⟩] else []

/-- `chatUserInfo`. -/
def Directory.chatUserInfoWrites (d : Directory) : List Write :=
  d.userInfo.map fun u => name256 (bytes "userinfo ok " ++ u.name ++ bytes " " ++ u.line.text ++ bytes "\r\n")

/-- `getAllNodeInfo`. -/
def Directory.getAllNodeInfoWrites (d : Directory) (username : Bytes) : List Write :=
  match d.dictFetchValue username with
  | none => []
  | some u => u.nodes.map fun n =>
    name256 (bytes "nodeinfo ok " ++ n.name ++ bytes " " ++ n.line.text ++ bytes "\r\n")

/-- `chatLogin`, with `is_valid_user`. -/
def Server.chatLoginWrites (s : Server) (c : Client) (name password : Bytes) (env : Env) : List Write :=
  if c.isvaliduser || c.isvalidnode then []
  else if !env.isValidUser name password || s.dir.getUserInfo name = some .on then
    [query256 (.validUser name password)]
  else
    let d := s.dir.setUserInfo name .on
    [query256 (.validUser name password), name256 name, name256 password,
      name256 (bytes "login ok " ++ (d.getUseridByName name).getD (bytes "(null)") ++ bytes "\r\n")] ++
      d.getAllNodeInfoWrites name ++ d.chatUserInfoWrites

/-- `nodeLogin`. -/
def Server.nodeLoginWrites (s : Server) (c : Client) (userid nodename : Bytes) : List Write :=
  match s.admitsNode c userid nodename with
  | none => []
  | some username =>
    s.dir.insertNodeToUserInfoWrites username nodename ++
      (if (s.dir.insertNodeToUserInfo username nodename).1 = 1 then [query256 (.insertNode userid nodename)] else []) ++
      [name256 (bytes "login ok " ++ username ++ bytes "\r\n"), name256 username, name256 userid, name256 nodename]

/-- `registerCommand` with "getuserid". -/
def Tables.getuseridWrites (db : Tables) (email : Bytes) (env : Env) : List Write :=
  if !email.contains 0x40 then []
  else if env.emailIsExist email then [query256 (.emailIsExist email)]
  else
    let md5buf := env.mymd5 (email ++ env.myrandom)
    [query256 (.emailIsExist email), name256 env.myrandom, name256 (email ++ env.myrandom), name256 md5buf,
      name256 (bytes "register ok   " ++ md5buf ++ bytes "  " ++ env.myrandom ++ bytes "\r\n"),
      query256 (.tokenIsExist email),
      if db.emailmd5.any (fun r => r.email == email) then query256 (.updateToken md5buf email)
      else query256 (.insertToken email md5buf)]

/-- `registerCommand` with "adduser". -/
def Server.adduserWrites (s : Server) (username password userid email : Bytes) (env : Env) : List Write :=
  if !env.useridIsExist userid then [query256 (.useridIsExist userid)]
  else if env.usernameIsExist username then [query256 (.useridIsExist userid), query256 (.usernameIsExist username)]
  else
    [query256 (.useridIsExist userid), query256 (.usernameIsExist username),
      query256 (.insertUser userid username password email)] ++ s.dir.insertUserInfoWrites userid username

/-- What a command writes. -/
def Stored.writes (st : Stored) (c : Client) (env : Env) : Command → List Write
  | .chat argv1 argv2 argv3 =>
    if argv1 = bytes "login" then st.server.chatLoginWrites c argv2 argv3 env
    else if !c.isvaliduser then []
    else if argv1 = bytes "userinfo" then st.server.dir.chatUserInfoWrites
    else if argv1 = bytes "adduser" ∧ c.username = bytes "root" then
      st.server.dir.insertUserInfoWrites argv2 argv3
    else []
  | .node argv1 argv2 argv3 =>
    if argv1 = bytes "login" then st.server.nodeLoginWrites c argv2 argv3 else []
  | .register argv1 argv2 argv3 argv4 argv5 =>
    if argv1 = bytes "getuserid" then st.db.getuseridWrites argv2 env
    else if argv1 = bytes "adduser" then st.server.adduserWrites argv2 argv3 argv4 argv5 env
    else []

/-! ## 2. Lengths -/

/-- What 255 bytes leave for the arguments of a statement. -/
def Statement.room : Statement → Nat
  | .validUser _ _ => 200
  | .insertNode _ _ => 213
  | .emailIsExist _ => 216
  | .tokenIsExist _ => 215
  | .updateToken _ _ => 209
  | .insertToken _ _ => 221
  | .useridIsExist _ => 213
  | .usernameIsExist _ => 217
  | .insertUser _ _ _ _ => 212

theorem chars_format (st : Statement) : chars (parseFormat st.format) + st.room = 255 := by
  cases st <;> rfl

theorem length_loginOk (name : Bytes) : (bytes "login ok " ++ name ++ bytes "\r\n").length = name.length + 11 := by
  have hlogin : (bytes "login ok ").length = 9 := by decide
  have hend : (bytes "\r\n").length = 2 := by decide
  simp only [List.length_append, hlogin, hend]
  omega

theorem length_registerOk (md5buf random : Bytes) :
    (bytes "register ok   " ++ md5buf ++ bytes "  " ++ random ++ bytes "\r\n").length =
      md5buf.length + random.length + 18 := by
  have hregister : (bytes "register ok   ").length = 14 := by decide
  have hblanks : (bytes "  ").length = 2 := by decide
  have hend : (bytes "\r\n").length = 2 := by decide
  simp only [List.length_append, hregister, hblanks, hend]
  omega

/-- `%02x`. -/
def hexPair (b : UInt8) : Bytes :=
  let digit := fun (n : UInt8) => if n < 10 then 0x30 + n else 0x57 + n
  [digit (b / 16), digit (b % 16)]

/-- `%d` of a number that is not negative. -/
def decimal (n : Nat) : Bytes := (Nat.toDigits 10 n).map fun c => c.toNat.toUInt8

/-- **The random number and its hash are what `redisLrand48` and `mymd5` make**: 31 bits in decimal, and
    sixteen bytes in hexadecimal. -/
structure Env.AsComputed (env : Env) : Prop where
  random : ∃ n < 2 ^ 31, env.myrandom = decimal n
  md5 : ∀ text, ∃ md5sum : List UInt8, md5sum.length = 16 ∧ env.mymd5 text = md5sum.flatMap hexPair

theorem Env.AsComputed.length_random {env : Env} (h : env.AsComputed) : env.myrandom.length ≤ 10 := by
  obtain ⟨n, hn, hrandom⟩ := h.random
  rw [hrandom]
  unfold decimal
  rw [List.length_map]
  exact Nat.toDigits_length 10 n 10 (by omega) (by omega)

theorem Env.AsComputed.length_md5 {env : Env} (h : env.AsComputed) (text : Bytes) : (env.mymd5 text).length = 32 := by
  obtain ⟨md5sum, hlen, hmd5⟩ := h.md5 text
  have hpair : md5sum.map (fun b => (hexPair b).length) = List.replicate md5sum.length 2 :=
    List.eq_replicate_iff.mpr ⟨List.length_map _, fun n hn => by
      obtain ⟨b, _, rfl⟩ := List.mem_map.mp hn
      rfl⟩
  rw [hmd5, List.length_flatMap, hpair, hlen]
  rfl

/-! ## 3. Room -/

/-- The accounts fit into the lines of `chatUserInfo`. -/
def Directory.RoomForUsers (d : Directory) : Prop :=
  ∀ u ∈ d.userInfo, u.name.length + u.line.text.length ≤ 240

/-- The nodes of an account fit into the lines of `getAllNodeInfo`. -/
def Directory.RoomForNodes (d : Directory) (username : Bytes) : Prop :=
  ∀ u, d.dictFetchValue username = some u → ∀ n ∈ u.nodes, n.name.length + n.line.text.length ≤ 240

/-- Room for a `chat login`: for the query, and if it is accepted for the replies. -/
def Server.RoomForLogin (s : Server) (c : Client) (name password : Bytes) (env : Env) : Prop :=
  (c.isvaliduser || c.isvalidnode) = false →
    name.length + password.length ≤ 200 ∧
      (s.admitsUser c name password env = true →
        ((s.dir.getUseridByName name).getD (bytes "(null)")).length ≤ 244 ∧
          (s.dir.setUserInfo name .on).RoomForNodes name ∧ (s.dir.setUserInfo name .on).RoomForUsers)

/-- Room for a `node login` that is accepted. -/
def Server.RoomForNode (s : Server) (c : Client) (userid nodename : Bytes) : Prop :=
  ∀ username, s.admitsNode c userid nodename = some username →
    username.length ≤ 244 ∧ userid.length ≤ 255 ∧ nodename.length ≤ 255 ∧
      ((s.dir.insertNodeToUserInfo username nodename).1 = 1 → userid.length + nodename.length ≤ 213)

/-- Room for "getuserid": for the first query, and for the statement that stores the token. -/
def Tables.RoomForToken (db : Tables) (email : Bytes) (env : Env) : Prop :=
  email.contains 0x40 = true →
    email.length ≤ 216 ∧
      (env.emailIsExist email = false →
        email.length ≤ if db.emailmd5.any (fun r => r.email == email) then 177 else 189)

/-- Room for "adduser": for both queries and for the statement that stores the account. -/
def RoomForAccount (username password userid email : Bytes) (env : Env) : Prop :=
  userid.length ≤ 213 ∧
    (env.useridIsExist userid = true →
      username.length ≤ 217 ∧
        (env.usernameIsExist username = false →
          userid.length + username.length + password.length + email.length ≤ 212))

/-- **Lengths that leave room for a command.** -/
def Stored.Room (st : Stored) (c : Client) (env : Env) : Command → Prop
  | .chat argv1 argv2 argv3 =>
    (argv1 = bytes "login" → st.server.RoomForLogin c argv2 argv3 env) ∧
      (argv1 = bytes "userinfo" → c.isvaliduser = true → st.server.dir.RoomForUsers) ∧
      (argv1 = bytes "adduser" → c.isvaliduser = true → c.username = bytes "root" →
        st.server.dir.dictFetchValue argv3 = none → argv2.length ≤ 255 ∧ argv3.length ≤ 255)
  | .node argv1 argv2 argv3 => argv1 = bytes "login" → st.server.RoomForNode c argv2 argv3
  | .register argv1 argv2 argv3 argv4 argv5 =>
    (argv1 = bytes "getuserid" → st.db.RoomForToken argv2 env) ∧
      (argv1 = bytes "adduser" → RoomForAccount argv2 argv3 argv4 argv5 env)

/-! ## 4. When the writes fit -/

theorem fits_name (text : Bytes) : (name256 text).Fits ↔ text.length ≤ 255 := Nat.lt_succ_iff

theorem fits_query (st : Statement) : (query256 st).Fits ↔ (st.args.map List.length).sum ≤ st.room := by
  have hlength : st.text.length = _ := length_render _ (holes_format st)
  have hchars := chars_format st
  show st.text.length < 256 ↔ _
  omega

section Functions

variable {s : Server} {c : Client} {d : Directory} {db : Tables} {env : Env}

/-- The lines of `chatUserInfo` and `getAllNodeInfo` begin with a word of the same length. -/
theorem fits_line {lit : Bytes} (hlit : lit.length = 12) (name : Bytes) (line : Line) :
    (name256 (lit ++ name ++ bytes " " ++ line.text ++ bytes "\r\n")).Fits ↔
      name.length + line.text.length ≤ 240 := by
  have hblank : (bytes " ").length = 1 := by decide
  have hend : (bytes "\r\n").length = 2 := by decide
  rw [fits_name]
  simp only [List.length_append, hlit, hblank, hend]
  omega

theorem chatUserInfoWrites_fit : (∀ w ∈ d.chatUserInfoWrites, w.Fits) ↔ d.RoomForUsers := by
  unfold Directory.chatUserInfoWrites Directory.RoomForUsers
  rw [List.forall_mem_map]
  exact forall₂_congr fun u _ => fits_line (by decide) u.name u.line

theorem getAllNodeInfoWrites_fit (username : Bytes) :
    (∀ w ∈ d.getAllNodeInfoWrites username, w.Fits) ↔ d.RoomForNodes username := by
  unfold Directory.getAllNodeInfoWrites Directory.RoomForNodes
  cases d.dictFetchValue username with
  | none => simp
  | some u =>
    simp only [Option.some.injEq, forall_eq', List.forall_mem_map]
    exact forall₂_congr fun n _ => fits_line (by decide) n.name n.line

theorem insertUserInfoWrites_fit (userid username : Bytes) :
    (∀ w ∈ d.insertUserInfoWrites userid username, w.Fits) ↔
      (d.dictFetchValue username = none → userid.length ≤ 255 ∧ username.length ≤ 255) := by
  have hoff : (name256 (bytes "off")).Fits := (fits_name _).mpr (by decide)
  unfold Directory.insertUserInfoWrites
  by_cases hnew : d.dictFetchValue username = none
  · rw [if_neg (not_not_intro hnew)]
    simp only [List.forall_mem_cons, fits_name, hoff, hnew, List.not_mem_nil, false_implies, implies_true, and_true,
      forall_const]
    exact and_comm
  · rw [if_pos hnew]
    simp [hnew]

/-- The userid of an account does not change with its line. -/
theorem getUseridByName_setUserInfo (name : Bytes) (line : Line) :
    (d.setUserInfo name line).getUseridByName name = d.getUseridByName name := by
  unfold Directory.getUseridByName Directory.setUserInfo
  rw [dictFetchValue_modify _ rfl, Option.map_map]
  rfl

theorem chatLoginWrites_fit (name password : Bytes) :
    (∀ w ∈ s.chatLoginWrites c name password env, w.Fits) ↔ s.RoomForLogin c name password env := by
  have hquery : (query256 (.validUser name password)).Fits ↔ name.length + password.length ≤ 200 :=
    fits_query (.validUser name password)
  unfold Server.chatLoginWrites Server.RoomForLogin
  cases hfree : c.isvaliduser || c.isvalidnode with
  | true => simp
  | false =>
    simp only [Bool.false_eq_true, if_false, forall_const]
    by_cases hgrant : s.admitsUser c name password env = true
    · obtain ⟨_, hvalid, hoff⟩ := admitsUser_iff.mp hgrant
      rw [if_neg (by simp [hvalid, hoff])]
      simp only [List.forall_mem_append, List.forall_mem_cons, List.not_mem_nil, false_implies, implies_true,
        hquery, fits_name, length_loginOk, getAllNodeInfoWrites_fit, chatUserInfoWrites_fit, hgrant, forall_const,
        getUseridByName_setUserInfo]
      constructor
      · rintro ⟨⟨⟨h, _, _, huserid, _⟩, hnodes⟩, husers⟩
        exact ⟨h, by omega, hnodes, husers⟩
      · rintro ⟨h, huserid, hnodes, husers⟩
        exact ⟨⟨⟨h, by omega, by omega, by omega, trivial⟩, hnodes⟩, husers⟩
    · have hrefused : !env.isValidUser name password || decide (s.dir.getUserInfo name = some .on) := by
        by_contra hno
        refine hgrant (admitsUser_iff.mpr ⟨hfree, ?_⟩)
        simpa using hno
      rw [if_pos hrefused]
      simp [hquery, hgrant]

theorem nodeLoginWrites_fit (userid nodename : Bytes) :
    (∀ w ∈ s.nodeLoginWrites c userid nodename, w.Fits) ↔ s.RoomForNode c userid nodename := by
  have hquery : (query256 (.insertNode userid nodename)).Fits ↔ userid.length + nodename.length ≤ 213 :=
    fits_query (.insertNode userid nodename)
  have hline : Write.Fits ⟨10, bytes "off"⟩ := show (bytes "off").length < 10 by decide
  unfold Server.nodeLoginWrites Server.RoomForNode Directory.insertNodeToUserInfoWrites
  cases s.admitsNode c userid nodename with
  | none => simp
  | some username =>
    simp only [Option.some.injEq, forall_eq']
    by_cases hnew : (s.dir.insertNodeToUserInfo username nodename).1 = 1
    · simp only [if_pos hnew]
      simp only [List.forall_mem_append, List.forall_mem_cons, List.not_mem_nil, false_implies, implies_true,
        and_true, hquery, hline, fits_name, length_loginOk, hnew, forall_const]
      omega
    · simp only [if_neg hnew]
      simp only [List.nil_append, List.forall_mem_cons, List.not_mem_nil, false_implies, implies_true, and_true,
        fits_name, length_loginOk, hnew]
      omega

theorem getuseridWrites_fit (henv : env.AsComputed) (email : Bytes) :
    (∀ w ∈ db.getuseridWrites email env, w.Fits) ↔ db.RoomForToken email env := by
  have hfirst : (query256 (.emailIsExist email)).Fits ↔ email.length ≤ 216 := fits_query (.emailIsExist email)
  unfold Tables.getuseridWrites Tables.RoomForToken
  cases hat : email.contains 0x40 with
  | false => simp
  | true =>
    cases hexist : env.emailIsExist email with
    | true => simp [hfirst]
    | false =>
      have hrandom := henv.length_random
      have hmd5 := henv.length_md5 (email ++ env.myrandom)
      have hsecond : (query256 (.tokenIsExist email)).Fits ↔ email.length ≤ 215 := fits_query (.tokenIsExist email)
      have hstore : (if db.emailmd5.any (fun r => r.email == email) then
          query256 (.updateToken (env.mymd5 (email ++ env.myrandom)) email)
          else query256 (.insertToken email (env.mymd5 (email ++ env.myrandom)))).Fits ↔
            email.length ≤ if db.emailmd5.any (fun r => r.email == email) then 177 else 189 := by
        split
        · rw [fits_query]
          simp only [Statement.args, Statement.room, List.map_cons, List.map_nil, List.sum_cons, List.sum_nil, hmd5]
          omega
        · rw [fits_query]
          simp only [Statement.args, Statement.room, List.map_cons, List.map_nil, List.sum_cons, List.sum_nil, hmd5]
          omega
      have hboth : (email ++ env.myrandom).length = email.length + env.myrandom.length := List.length_append
      have hbound : (if db.emailmd5.any (fun r => r.email == email) then 177 else 189) ≤ 189 := by
        split <;> omega
      simp only [Bool.not_true, Bool.false_eq_true, if_false, List.forall_mem_cons, List.not_mem_nil,
        false_implies, implies_true, and_true, forall_const, hfirst, hsecond, hstore, fits_name,
        length_registerOk, hboth, hmd5]
      omega

theorem adduserWrites_fit (username password userid email : Bytes) :
    (∀ w ∈ s.adduserWrites username password userid email env, w.Fits) ↔
      RoomForAccount username password userid email env := by
  have hfirst : (query256 (.useridIsExist userid)).Fits ↔ userid.length ≤ 213 := fits_query (.useridIsExist userid)
  have hsecond : (query256 (.usernameIsExist username)).Fits ↔ username.length ≤ 217 :=
    fits_query (.usernameIsExist username)
  unfold Server.adduserWrites RoomForAccount
  cases env.useridIsExist userid with
  | false => simp [hfirst]
  | true =>
    cases env.usernameIsExist username with
    | true => simp [hfirst, hsecond]
    | false =>
      have hinsert : (query256 (.insertUser userid username password email)).Fits ↔
          userid.length + username.length + password.length + email.length ≤ 212 := by
        rw [fits_query]
        simp only [Statement.args, Statement.room, List.map_cons, List.map_nil, List.sum_cons, List.sum_nil]
        omega
      simp only [Bool.not_true, Bool.false_eq_true, if_false, List.forall_mem_append, List.forall_mem_cons,
        List.not_mem_nil, false_implies, implies_true, and_true, forall_const, hfirst, hsecond, hinsert,
        insertUserInfoWrites_fit]
      constructor
      · exact fun h => h.1
      · intro h
        exact ⟨h, fun _ => by omega⟩

end Functions

/-- **The writes of a command stay within their arrays exactly if there is room.** -/
theorem writes_fit (st : Stored) (c : Client) (env : Env) (henv : env.AsComputed) (cmd : Command) :
    (∀ w ∈ st.writes c env cmd, w.Fits) ↔ st.Room c env cmd := by
  cases cmd with
  | chat argv1 argv2 argv3 =>
    unfold Stored.writes Stored.Room
    by_cases hlogin : argv1 = bytes "login"
    · subst hlogin
      have hu : bytes "login" ≠ bytes "userinfo" := by decide
      have ha : bytes "login" ≠ bytes "adduser" := by decide
      simp [chatLoginWrites_fit, hu, ha]
    · cases hin : c.isvaliduser with
      | false => simp [hlogin]
      | true =>
        by_cases huserinfo : argv1 = bytes "userinfo"
        · subst huserinfo
          have ha : bytes "userinfo" ≠ bytes "adduser" := by decide
          simp [hlogin, chatUserInfoWrites_fit, ha]
        · by_cases hadduser : argv1 = bytes "adduser" ∧ c.username = bytes "root"
          · obtain ⟨rfl, hroot⟩ := hadduser
            simp [hlogin, huserinfo, hroot, insertUserInfoWrites_fit]
          · have hno : argv1 = bytes "adduser" → c.username ≠ bytes "root" := fun h h' => hadduser ⟨h, h'⟩
            simp only [if_neg hadduser, hlogin, huserinfo, Bool.not_true, Bool.false_eq_true, if_false,
              List.not_mem_nil, false_implies, implies_true, true_and, forall_const, true_iff]
            exact fun h h' => absurd h' (hno h)
  | node argv1 argv2 argv3 =>
    unfold Stored.writes Stored.Room
    by_cases hlogin : argv1 = bytes "login"
    · simp [hlogin, nodeLoginWrites_fit]
    · simp [hlogin]
  | register argv1 argv2 argv3 argv4 argv5 =>
    unfold Stored.writes Stored.Room
    by_cases hget : argv1 = bytes "getuserid"
    · subst hget
      have ha : bytes "getuserid" ≠ bytes "adduser" := by decide
      simp [getuseridWrites_fit henv, ha]
    · by_cases hadduser : argv1 = bytes "adduser"
      · subst hadduser
        simp [hget, adduserWrites_fit]
      · simp [hget, hadduser]

/-- The random number is 7, and every hash is zero. -/
def zeroEnv : Env := { openEnv with myrandom := decimal 7, mymd5 := fun _ => (List.replicate 16 0).flatMap hexPair }

theorem zeroEnv_asComputed : zeroEnv.AsComputed :=
  ⟨⟨7, by decide, rfl⟩, fun _ => ⟨List.replicate 16 0, List.length_replicate, rfl⟩⟩

/-- A connection, and no account. -/
def oneClient : Stored := ⟨(serverStart Tables.empty.rows).createClient 0, .empty⟩

/-- A login with a name of that many bytes. -/
def longName (n : Nat) : Command := .chat (bytes "login") (List.replicate n 0x61) []

theorem writes_fit_longest :
    (∀ w ∈ oneClient.writes (newClient 0) zeroEnv (longName 200), w.Fits) ↔
      oneClient.Room (newClient 0) zeroEnv (longName 200) :=
  writes_fit oneClient (newClient 0) zeroEnv zeroEnv_asComputed (longName 200)

/-- **A name of 201 bytes**, on a new connection: the query has 256 bytes, and the zero byte behind it is
    written beyond the array. -/
theorem longName_overruns :
    runEvents storedNext (storedStart .empty) [.connect 0] = some oneClient ∧
      oneClient.server.client? 0 = some (newClient 0) ∧
      ∃ w ∈ oneClient.writes (newClient 0) zeroEnv (longName 201), w.size = 256 ∧ w.text.length = 256 := by
  refine ⟨rfl, rfl, query256 (.validUser (List.replicate 201 0x61) []), ?_, rfl, ?_⟩
  · exact List.mem_cons_self
  · have hlength := length_render (parseFormat (Statement.validUser (List.replicate 201 0x61) []).format)
      (holes_format (.validUser (List.replicate 201 0x61) []))
    exact hlength.trans (by decide +kernel)

end SmartHome.Chat
