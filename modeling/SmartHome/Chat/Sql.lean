/-
  Subject:   THE STATEMENTS THE SERVER BUILDS (is_valid_user, nodeLogin, registerCommand), read by MySQL.

  Every statement is a format with its arguments between quotes, filled in by `sprintf`; nothing is escaped.
  So an argument with a quote, or with a backslash before anything but `%` and `_`, is read as something
  else, and may end its literal and go on as part of the statement.

  * `mysql` -- the rules for literals of MySQL; `sprintf` -- formats with `%s`;
  * `Statement`, `Statement.text`, `Statement.tokens` -- the statements, as sent and as meant;
  * `isValidUser`, `Answers` -- the verdict on a login, from what the database answers;
  * **`statement_exact`** -- a statement is read as it is meant exactly if its arguments are plain, and then,
    and only then, is the verdict right on every table; `password_injects` -- a password that is a condition.
-/
import SmartHome.Lib.Quoting
import SmartHome.Chat.Database

namespace SmartHome.Chat

open SmartHome.Lib

/-! ## 1. MySQL -/

/-- The character an escape sequence stands for. -/
def escapeChar (c : UInt8) : UInt8 :=
  if c = 0x30 then 0x00
  else if c = 0x62 then 0x08
  else if c = 0x6E then 0x0A
  else if c = 0x72 then 0x0D
  else if c = 0x74 then 0x09
  else if c = 0x5A then 0x1A
  else c

/-- `\%` and `\_` keep their backslash. -/
def mysqlUnescape (c : UInt8) : List UInt8 := if c = 0x25 ∨ c = 0x5F then [0x5C, c] else [escapeChar c]

/-- Blanks. -/
def isBlank (c : UInt8) : Bool := c = 0x20 || 0x09 ≤ c && c ≤ 0x0D

/-- Letters, digits, `_`, `$` and everything beyond ASCII. -/
def isNameChar (c : UInt8) : Bool :=
  0x30 ≤ c && c ≤ 0x39 || 0x41 ≤ c && c ≤ 0x5A || 0x61 ≤ c && c ≤ 0x7A || c = 0x5F || c = 0x24 || 0x80 ≤ c

theorem escapeChar_special (c : UInt8) : escapeChar c = 0x27 ∨ escapeChar c = 0x5C ↔ c = 0x27 ∨ c = 0x5C := by
  unfold escapeChar
  split
  · subst_vars; decide
  split
  · subst_vars; decide
  split
  · subst_vars; decide
  split
  · subst_vars; decide
  split
  · subst_vars; decide
  split
  · subst_vars; decide
  · exact Iff.rfl

/-- The rules of MySQL for literals in single quotes. -/
def mysql : Rules UInt8 where
  quote := 0x27
  escape := 0x5C
  isSpace := isBlank
  isWord := isNameChar
  unescape := mysqlUnescape
  ne := by decide
  unescaped c := by
    unfold mysqlUnescape
    split
    · rename_i h
      refine Or.inl ⟨rfl, ?_⟩
      rcases h with rfl | rfl <;> decide
    · exact Or.inr ⟨_, rfl, escapeChar_special c⟩

/-! ## 2. Statements -/

/-- A format; `%s` is a hole. -/
def parseFormat : Bytes → List (Item UInt8)
  | [] => []
  | [c] => [.char c]
  | c :: d :: f => if c = 0x25 ∧ d = 0x73 then .hole :: parseFormat f else .char c :: parseFormat (d :: f)

/-- `sprintf` with strings. The buffers have 256 bytes; what does not fit there is not defined. -/
def sprintf (format : Bytes) (args : List Bytes) : Bytes := render (parseFormat format) args

/-- The statements with arguments in them. -/
inductive Statement where
  | validUser (name password : Bytes)
  | insertNode (userid nodename : Bytes)
  | emailIsExist (email : Bytes)
  | tokenIsExist (email : Bytes)
  | updateToken (md5buf email : Bytes)
  | insertToken (email md5buf : Bytes)
  | useridIsExist (userid : Bytes)
  | usernameIsExist (username : Bytes)
  | insertUser (userid username password email : Bytes)

/-- Their formats. -/
def Statement.format : Statement → Bytes
  | .validUser _ _ => bytes "select  *  from alluser where name='%s' and password='%s' ;"
  | .insertNode _ _ => bytes "insert into node values('%s', '%s',  '0','0');"
  | .emailIsExist _ => bytes "select  *  from alluser where email='%s';"
  | .tokenIsExist _ => bytes "select  *  from emailmd5 where email='%s';"
  | .updateToken _ _ => bytes "update  emailmd5 set saltmd5='%s' where email='%s'"
  | .insertToken _ _ => bytes "insert into emailmd5 values('%s','%s')"
  | .useridIsExist _ => bytes "select  *  from emailmd5 where saltmd5='%s';"
  | .usernameIsExist _ => bytes "select  *  from alluser where name='%s';"
  | .insertUser _ _ _ _ => bytes "insert into alluser values('%s', '%s',  '%s','%s');"

/-- Their arguments. -/
def Statement.args : Statement → List Bytes
  | .validUser name password => [name, password]
  | .insertNode userid nodename => [userid, nodename]
  | .emailIsExist email => [email]
  | .tokenIsExist email => [email]
  | .updateToken md5buf email => [md5buf, email]
  | .insertToken email md5buf => [email, md5buf]
  | .useridIsExist userid => [userid]
  | .usernameIsExist username => [username]
  | .insertUser userid username password email => [userid, username, password, email]

/-- What the server sends. -/
def Statement.text (st : Statement) : Bytes := sprintf st.format st.args

/-- A word of a statement. -/
def sqlWord (s : String) : Token UInt8 := .word (bytes s)

/-- `select * from <table> where <column>='…'`. -/
def selectTokens (table column : String) (value : Bytes) : List (Token UInt8) :=
  [sqlWord "select", .symbol 0x2A, sqlWord "from", sqlWord table, sqlWord "where", sqlWord column, .symbol 0x3D,
    .literal value]

/-- What it means: the tokens of the format, with the arguments as literals. -/
def Statement.tokens : Statement → List (Token UInt8)
  | .validUser name password =>
    selectTokens "alluser" "name" name ++
      [sqlWord "and", sqlWord "password", .symbol 0x3D, .literal password, .symbol 0x3B]
  | .insertNode userid nodename =>
    [sqlWord "insert", sqlWord "into", sqlWord "node", sqlWord "values", .symbol 0x28, .literal userid, .symbol 0x2C,
      .literal nodename, .symbol 0x2C, .literal (bytes "0"), .symbol 0x2C, .literal (bytes "0"), .symbol 0x29,
      .symbol 0x3B]
  | .emailIsExist email => selectTokens "alluser" "email" email ++ [.symbol 0x3B]
  | .tokenIsExist email => selectTokens "emailmd5" "email" email ++ [.symbol 0x3B]
  | .updateToken md5buf email =>
    [sqlWord "update", sqlWord "emailmd5", sqlWord "set", sqlWord "saltmd5", .symbol 0x3D, .literal md5buf,
      sqlWord "where", sqlWord "email", .symbol 0x3D, .literal email]
  | .insertToken email md5buf =>
    [sqlWord "insert", sqlWord "into", sqlWord "emailmd5", sqlWord "values", .symbol 0x28, .literal email,
      .symbol 0x2C, .literal md5buf, .symbol 0x29]
  | .useridIsExist userid => selectTokens "emailmd5" "saltmd5" userid ++ [.symbol 0x3B]
  | .usernameIsExist username => selectTokens "alluser" "name" username ++ [.symbol 0x3B]
  | .insertUser userid username password email =>
    [sqlWord "insert", sqlWord "into", sqlWord "alluser", sqlWord "values", .symbol 0x28, .literal userid,
      .symbol 0x2C, .literal username, .symbol 0x2C, .literal password, .symbol 0x2C, .literal email, .symbol 0x29,
      .symbol 0x3B]

theorem holes_format (st : Statement) : st.args.length = holes (parseFormat st.format) := by
  cases st <;> rfl

theorem wellQuoted_format (st : Statement) : mysql.wellQuoted .between (parseFormat st.format) = true := by
  cases st <;> rfl

theorem template_format (st : Statement) :
    mysql.template .between (parseFormat st.format) st.args = some st.tokens := by
  cases st <;> rfl

/-- **A statement is read as it is meant exactly if its arguments are plain.** -/
theorem lex_text (st : Statement) :
    mysql.lex st.text = some st.tokens ↔ ∀ a ∈ st.args, mysql.plain a = true := by
  have h := (lexFrom_render mysql (holes_format st) (wellQuoted_format st)).2
  rw [template_format] at h
  exact h

/-! ## 3. The verdict on a login -/

/-- `is_valid_user`: an error counts as no, a row as yes. -/
def isValidUser (answer : Bytes → Option (List AlluserRow)) (name password : Bytes) : Bool :=
  match answer (Statement.validUser name password).text with
  | none => false
  | some rows => !rows.isEmpty

/-- A database whose table `alluser` holds these rows: it answers the query for a name and a password. What
    it answers to other texts is left open. -/
def Answers (rows : List AlluserRow) (answer : Bytes → Option (List AlluserRow)) : Prop :=
  ∀ query name password, mysql.lex query = some (Statement.validUser name password).tokens →
    answer query = some (rows.filter fun r => r.name == name && r.password == password)

theorem validUser_inj {name password name' password' : Bytes}
    (h : (Statement.validUser name password).tokens = (Statement.validUser name' password').tokens) :
    name = name' ∧ password = password' := by
  simpa [Statement.tokens, selectTokens] using h

/-- One that answers such queries, and has nothing for any other text. -/
def answerOf (rows : List AlluserRow) (query : Bytes) : Option (List AlluserRow) :=
  some (rows.filter fun r => mysql.lex query = some (Statement.validUser r.name r.password).tokens)

theorem answers_answerOf (rows : List AlluserRow) : Answers rows (answerOf rows) := by
  intro query name password hlex
  unfold answerOf
  rw [hlex]
  congr 2
  funext r
  rw [Bool.eq_iff_iff, decide_eq_true_iff, Bool.and_eq_true, beq_iff_eq, beq_iff_eq]
  constructor
  · intro h
    obtain ⟨hname, hpassword⟩ := validUser_inj (Option.some.inj h)
    exact ⟨hname.symm, hpassword.symm⟩
  · rintro ⟨rfl, rfl⟩
    rfl

/-- Read as it is meant, the query gives the right verdict. -/
theorem isValidUser_iff {rows : List AlluserRow} {answer : Bytes → Option (List AlluserRow)} (h : Answers rows answer)
    {name password name' password' : Bytes} (hlex : mysql.lex (Statement.validUser name password).text =
      some (Statement.validUser name' password').tokens) :
    isValidUser answer name password = true ↔ ∃ r ∈ rows, r.name = name' ∧ r.password = password' := by
  unfold isValidUser
  rw [h _ _ _ hlex]
  simp only [Bool.not_eq_true', List.isEmpty_eq_false_iff, ne_eq, List.filter_eq_nil_iff, not_forall,
    Bool.and_eq_true, beq_iff_eq, not_not, exists_prop]

/-- **Statements are read as they are meant exactly if their arguments are plain**; and the verdict on a login
    is right, on every table and whatever the database answers to other texts, exactly if name and
    password are plain. -/
theorem statement_exact (st : Statement) (name password : Bytes) :
    (mysql.lex st.text = some st.tokens ↔ ∀ a ∈ st.args, mysql.plain a = true) ∧
      ((∀ rows answer, Answers rows answer →
          (isValidUser answer name password = true ↔ ∃ r ∈ rows, r.name = name ∧ r.password = password)) ↔
        mysql.plain name = true ∧ mysql.plain password = true) := by
  refine ⟨lex_text st, ?_⟩
  have hplain : mysql.lex (Statement.validUser name password).text =
      some (Statement.validUser name password).tokens ↔ mysql.plain name = true ∧ mysql.plain password = true := by
    rw [lex_text]
    simp [Statement.args]
  rw [← hplain]
  refine ⟨fun h => ?_, fun hlex rows answer hanswer => isValidUser_iff hanswer hlex⟩
  by_cases hread : ∃ name' password', mysql.lex (Statement.validUser name password).text =
      some (Statement.validUser name' password').tokens
  · -- it is read as the query for another account: a table with that one only
    obtain ⟨name', password', hlex⟩ := hread
    have hrow : isValidUser (answerOf [⟨[], name', password', []⟩]) name password = true :=
      (isValidUser_iff (answers_answerOf _) hlex).mpr ⟨_, List.mem_singleton_self _, rfl, rfl⟩
    obtain ⟨r, hr, hname, hpassword⟩ := (h _ _ (answers_answerOf _)).mp hrow
    obtain rfl := List.mem_singleton.mp hr
    have hname : name' = name := hname
    have hpassword : password' = password := hpassword
    rw [hname, hpassword] at hlex
    exact hlex
  · -- it is read as something else, to which the answer may be anything
    let answer : Bytes → Option (List AlluserRow) := fun query =>
      if query = (Statement.validUser name password).text then some [⟨[], [], [], []⟩] else answerOf [] query
    have hanswers : Answers [] answer := by
      intro query name' password' hlex
      have hne : query ≠ (Statement.validUser name password).text := by
        rintro rfl
        exact hread ⟨name', password', hlex⟩
      exact (if_neg hne).trans (answers_answerOf [] query name' password' hlex)
    have hyes : isValidUser answer name password = true := by
      unfold isValidUser
      simp only [answer, if_true]
      rfl
    obtain ⟨r, hr, _⟩ := (h [] answer hanswers).mp hyes
    exact absurd hr List.not_mem_nil

/-- **A password that is a condition**: the query has a second comparison, which is always true. -/
theorem password_injects :
    (Statement.validUser (bytes "alice") (bytes "' or ''='")).text.length < 256 ∧
      0x00 ∉ (Statement.validUser (bytes "alice") (bytes "' or ''='")).text ∧
      mysql.lex (Statement.validUser (bytes "alice") (bytes "' or ''='")).text =
        some (selectTokens "alluser" "name" (bytes "alice") ++
          [sqlWord "and", sqlWord "password", .symbol 0x3D, .literal [], sqlWord "or", .literal [], .symbol 0x3D,
            .literal [], .symbol 0x3B]) ∧ mysql.lex (Statement.validUser (bytes "alice") (bytes "' or ''='")).text ≠
        some (Statement.validUser (bytes "alice") (bytes "' or ''='")).tokens := by
  decide +kernel

end SmartHome.Chat
