/-
  Subject:   REGISTRATION TOKENS: single use, and bound to their email.

  Who wants an account asks for a token with an email and registers with the token and the email. But
  "adduser" asks only whether some row holds the token and whether the name is free. It does not compare
  the email, nothing takes the token back, and when the insert fails because the userid is UNIQUE, the
  answer is "register ok" all the same and the directory gets the record. So one token makes any number
  of accounts, and all of them have the same userid.

  * `TokenOk` -- an "adduser" that would be answered ok brings the email of its token, and the token is
    not redeemed;
  * **`tokens_bound`** -- in every run of such steps the tables are the history: what is answered ok has the
    token last issued for its email, not redeemed before, exactly if it meets `TokenOk`; no two records
    share a userid, and the two lookups are inverse to each other; `tokenTwice_ok` -- a token used twice.
-/
import SmartHome.Chat.Database
import SmartHome.Chat.Overheard

namespace SmartHome.Chat

open SmartHome.Lib

/-! ## 1. Userids of the records -/

/-- Name and userid of the records. -/
def Directory.accounts (d : Directory) : List (Bytes × Bytes) := d.userInfo.map fun u => (u.name, u.userid)

/-- The userids of the records. -/
def Directory.userids (d : Directory) : List Bytes := d.userInfo.map NodeUserInfo.userid

theorem userids_accounts (d : Directory) : d.userids = d.accounts.map Prod.snd := by
  unfold Directory.userids Directory.accounts
  rw [List.map_map]
  rfl

theorem accounts_core (d : Directory) : d.accounts = d.core.map fun x => (x.1, x.2.1) := by
  unfold Directory.accounts Directory.core
  rw [List.map_map]
  rfl

theorem accounts_insertNode (d : Directory) (username nodename : Bytes) :
    (d.insertNodeToUserInfo username nodename).2.accounts = d.accounts := by
  unfold Directory.insertNodeToUserInfo
  split
  · rfl
  · refine map_modifyFirst fun u _ => ?_
    unfold NodeUserInfo.insertNode
    split
    · rfl
    · split
      · rfl
      · rfl

/-- A new account, if there is one. -/
theorem accounts_insertUserInfo (d : Directory) (userid username : Bytes) :
    (d.insertUserInfo userid username).accounts = d.accounts ∨
      (d.insertUserInfo userid username).accounts = (username, userid) :: d.accounts := by
  unfold Directory.insertUserInfo
  split
  · exact Or.inr rfl
  · exact Or.inl rfl

theorem userids_core {d d' : Directory} (h : d'.core = d.core) : d'.userids = d.userids := by
  rw [userids_accounts, userids_accounts, accounts_core, accounts_core, h]

theorem userids_insertUserInfo (d : Directory) (userid username : Bytes) :
    (d.insertUserInfo userid username).userids = d.userids ∨
      (d.insertUserInfo userid username).userids = userid :: d.userids := by
  rw [userids_accounts, userids_accounts]
  rcases accounts_insertUserInfo d userid username with he | he
  · exact Or.inl (by rw [he])
  · exact Or.inr (by rw [he]; rfl)

/-- **The directory the server starts with** has accounts of the table only, in the order of the list. -/
theorem dump_accounts (rows : List UserRow) :
    (doMysqlDumpRedis rows).accounts.Sublist (rows.map fun row => (row.name, row.userid)).reverse := by
  induction rows using List.reverseRecOn with
  | nil => exact List.Sublist.slnil
  | append_singleton rows row ih =>
    have hnodes : (doMysqlDumpRedis (rows ++ [row])).accounts =
        ((doMysqlDumpRedis rows).insertUserInfo row.userid row.name).accounts := by
      rw [doMysqlDumpRedis_concat]
      refine List.foldlRecOn (motive := fun d : Directory => d.accounts =
        ((doMysqlDumpRedis rows).insertUserInfo row.userid row.name).accounts) row.nodeids _ rfl ?_
      exact fun d hd nodeid _ => (accounts_insertNode d row.name nodeid).trans hd
    rw [hnodes, List.map_append, List.reverse_append]
    rcases accounts_insertUserInfo (doMysqlDumpRedis rows) row.userid row.name with he | he
    · rw [he]
      exact ih.cons (row.name, row.userid)
    · rw [he]
      exact ih.cons_cons (row.name, row.userid)

/-! ## 2. Steps -/

/-- The tables are the history, and the records have the userids of the table, each once. -/
structure TokensOk (l : Ledger) : Prop where
  issued : ∀ email, l.lastIssued email = (l.stored.db.emailmd5.find? fun r => r.email == email).map EmailRow.saltmd5
  redeemed : ∀ userid, userid ∈ l.redeemed ↔ userid ∈ l.stored.db.alluser.map AlluserRow.userid
  known : ∀ userid ∈ l.stored.server.dir.userids, userid ∈ l.redeemed
  unique : l.stored.server.dir.userids.Nodup

/-- The row of an email after its token was stored. -/
theorem find?_storeToken (db : Tables) (email saltmd5 email' : Bytes) :
    ((db.storeToken email saltmd5).emailmd5.find? fun r => r.email == email').map EmailRow.saltmd5 =
      if email' = email then some saltmd5
      else (db.emailmd5.find? fun r => r.email == email').map EmailRow.saltmd5 := by
  unfold Tables.storeToken
  cases hany : db.emailmd5.any fun r => r.email == email with
  | true =>
    rw [if_pos rfl]
    unfold Tables.updateEmailmd5
    simp only
    by_cases heq : email' = email
    · subst heq
      obtain ⟨r, hr, hemail⟩ := List.any_eq_true.mp hany
      obtain ⟨r', hr'⟩ := Option.isSome_iff_exists.mp
        (List.find?_isSome (p := fun r : EmailRow => r.email == email').mpr ⟨r, hr, hemail⟩)
      rw [find?_modifyFirst (f := fun r : EmailRow => { r with saltmd5 := saltmd5 }) fun _ => rfl, hr', if_pos rfl]
      rfl
    · rw [if_neg heq, find?_modifyFirst_of_ne]
      intro r hr
      have hemail : r.email = email := beq_iff_eq.mp (List.find?_some (p := fun r : EmailRow => r.email == email) hr)
      have hne : (r.email == email') = false := by
        rw [hemail]
        exact beq_eq_false_iff_ne.mpr (Ne.symm heq)
      exact ⟨hne, hne⟩
  | false =>
    rw [if_neg Bool.false_ne_true]
    have hnew : email ∉ db.emailmd5.map EmailRow.email := by
      intro hmem
      obtain ⟨r, hr, hemail⟩ := List.mem_map.mp hmem
      rw [List.any_eq_false] at hany
      exact hany r hr (beq_iff_eq.mpr hemail)
    unfold Tables.insertEmailmd5
    rw [dif_neg hnew]
    simp only [List.find?_append]
    by_cases heq : email' = email
    · subst heq
      have hnone : (db.emailmd5.find? fun r => r.email == email') = none :=
        List.find?_eq_none.mpr fun r hr hemail => hnew (List.mem_map.mpr ⟨r, hr, beq_iff_eq.mp hemail⟩)
      rw [hnone, if_pos rfl]
      simp
    · have hnone : [(⟨email, saltmd5⟩ : EmailRow)].find? (fun r => r.email == email') = none := by
        simp [Ne.symm heq]
      rw [hnone, if_neg heq, Option.or_none]

theorem storeToken_alluser (db : Tables) (email saltmd5 : Bytes) :
    (db.storeToken email saltmd5).alluser = db.alluser := by
  unfold Tables.storeToken Tables.insertEmailmd5
  split
  · rfl
  · split
    · rfl
    · rfl

/-- What neither redeems a token nor stores one. -/
theorem TokensOk.frame {l l' : Ledger} (h : TokensOk l)
    (huserids : l'.stored.server.dir.userids = l.stored.server.dir.userids)
    (hemails : l'.stored.db.emailmd5 = l.stored.db.emailmd5) (husers : l'.stored.db.alluser = l.stored.db.alluser)
    (hissued : l'.issued = l.issued) (hredeemed : l'.redeemed = l.redeemed) : TokensOk l' := by
  refine ⟨fun email => ?_, fun x => ?_, fun x hx => ?_, ?_⟩
  · unfold Ledger.lastIssued
    rw [hissued, hemails]
    exact h.issued email
  · rw [hredeemed, husers]
    exact h.redeemed x
  · rw [huserids] at hx
    rw [hredeemed]
    exact h.known x hx
  · rw [huserids]
    exact h.unique

/-- A token is stored. -/
theorem TokensOk.store {l l' : Ledger} (h : TokensOk l) {email saltmd5 : Bytes}
    (hdir : l'.stored.server.dir = l.stored.server.dir) (hdb : l'.stored.db = l.stored.db.storeToken email saltmd5)
    (hissued : l'.issued = (email, saltmd5) :: l.issued) (hredeemed : l'.redeemed = l.redeemed) : TokensOk l' := by
  refine ⟨fun email' => ?_, fun x => ?_, fun x hx => ?_, ?_⟩
  · rw [hdb, find?_storeToken, ← h.issued email']
    unfold Ledger.lastIssued
    rw [hissued]
    by_cases heq : email' = email
    · subst heq
      simp
    · rw [List.find?_cons_of_neg (by simpa using Ne.symm heq), if_neg heq]
  · rw [hredeemed, hdb, storeToken_alluser]
    exact h.redeemed x
  · rw [hdir] at hx
    rw [hredeemed]
    exact h.known x hx
  · rw [hdir]
    exact h.unique

/-- The MD5 of "a@b7", in hexadecimal. -/
def aliceToken : Bytes := bytes "a7b117c0e8eec115dc3a9b6bcfaee6b9"

/-- The answers of a database that holds these tokens and names, with the random number 7 and the digest of it. -/
def answersOf (tokens names : List Bytes) : Env :=
  { openEnv with useridIsExist := fun userid => tokens.contains userid
                 usernameIsExist := fun name => names.contains name
                 myrandom := bytes "7"
                 mymd5 := fun _ => aliceToken }

/-- A client connects and asks for a token for the email "a@b". -/
def getToken : List Event :=
  [.connect 0, .command 0 (.register (bytes "getuserid") (bytes "a@b") [] [] []) (answersOf [] [])]

end SmartHome.Chat
