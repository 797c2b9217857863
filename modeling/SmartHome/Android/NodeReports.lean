/-
  Subject:   WHAT IS READ OF A NODE'S MESSAGE: `name=<name>,<text>;name=<name>,<text>` ...

  A node says what it measures or switches, for one or several names. `parse` takes the first word of
  the message, cuts it at semicolons, trims the parts, and looks for a name and for what follows the
  first comma. White space ends the message, control characters at the ends of the parts and of the
  names disappear; all else is kept.

  * `IsReport`, `Reports` -- a part, a message of them;
  * `readPart_report`, `report_trim` -- a report is read as it was written, and one that is was read whole;
  * `parseParts_ok`, `recordAll_inj` -- the loop over the parts, and what it leaves behind;
  * `Readable` -- the messages of which nothing is lost: `reports_read`, **`readable_of_calls`**.
-/
import SmartHome.Android.MyParse
import Mathlib.Data.List.Infix

namespace SmartHome.Android

open SmartHome.Lib

/-! ## 1. A report -/

/-- One part of a node's message: `name=<name>,<text>`. -/
structure IsReport (part name text : Str) : Prop where
  shape : part = "name=".toList ++ name ++ ',' :: text
  nonempty : name ≠ []
  noComma : ',' ∉ name
  noEquals : '=' ∉ name

/-- **The reports of a message**: its parts between the semicolons, each of them a name and a text. -/
def Reports (message : Str) (rs : List (Str × Str)) : Prop :=
  List.Forall₂ (fun part r => IsReport part r.1 r.2) (message.splitOn ';') rs

section Report

variable {j : Platform} {part name text q r : Str}

theorem realMessage_comma {a : Str} (ha : ',' ∉ a) (t : Str) : getRealMessageFromMessage (a ++ ',' :: t) = t := by
  unfold getRealMessageFromMessage
  rw [if_pos (List.mem_append_right _ List.mem_cons_self), List.idxOf_append_of_notMem ha, List.idxOf_cons_self,
    Nat.add_zero, ← List.drop_drop, List.drop_left]
  rfl

theorem realMessage_noComma {a : Str} (ha : ',' ∉ a) : getRealMessageFromMessage a = a := by
  unfold getRealMessageFromMessage
  rw [if_neg ha, List.drop_zero]

theorem noComma_front (h : IsReport part name text) : ',' ∉ "name=".toList ++ name := by
  intro hmem
  rcases List.mem_append.mp hmem with hlit | hname
  · exact absurd hlit (by decide)
  · exact h.noComma hname

/-- `name=` is cut at the sign. -/
theorem splitRuns_name (x : Str) :
    splitRuns (fun c => c == '=') ("name=".toList ++ x) = "name".toList :: words (fun c => c == '=') x := by
  have hsign : '=' ∉ "name".toList := by decide
  have hcut := splitRuns_word (p := fun c => c == '=') (w := "name".toList) (s := '=' :: x) (by decide)
    (fun c hc => beq_false_of_ne fun he => hsign (he ▸ hc)) fun c hc => by cases hc; rfl
  rw [words_sep rfl] at hcut
  exact hcut

/-- **What is read of a report**: its name and its whole text. -/
theorem readPart_report (h : IsReport part name text) : readPart part = some (some (trim name), text) := by
  have hfront : ∀ x ∈ "name=".toList ++ name, (x == ',') = false := fun x hx =>
    beq_false_of_ne fun he => noComma_front h (he ▸ hx)
  have hname : ∀ x ∈ name, (x == '=') = false := fun x hx => beq_false_of_ne fun he => h.noEquals (he ▸ hx)
  have hitems : splitRuns (fun c => c == ',') part =
      ("name=".toList ++ name) :: words (fun c => c == ',') (',' :: text) := by
    rw [h.shape]
    exact splitRuns_word (List.append_ne_nil_of_right_ne_nil _ h.nonempty) hfront fun c hc => by cases hc; rfl
  have hvalue : splitRuns (fun c => c == '=') ("name=".toList ++ name) = ["name".toList, name] := by
    exact (splitRuns_name name).trans (congrArg _ (words_single h.nonempty hname))
  unfold readPart getValueFromMessageByName
  rw [hitems, List.find?_cons_of_pos rfl]
  show Option.map _ (Option.map _ (splitRuns (fun c => c == '=') ("name=".toList ++ name))[1]?) = _
  rw [hvalue, h.shape, realMessage_comma (noComma_front h)]
  rfl

/-- A beginning of `name=` has no value. -/
theorem value_start : ∀ q ∈ "name=".toList.inits, (splitRuns (fun c => c == '=') q)[1]? = none := by decide

/-- What is read of less than the name is less than the name. -/
theorem value_short (h : IsReport part name text) (hcut : "name=".toList ++ name = q ++ r) (hr : r ≠ []) {value : Str}
    (hvalue : (splitRuns (fun c => c == '=') q)[1]? = some value) : value.length < name.length := by
  rcases List.append_eq_append_iff.mp hcut with ⟨x, hq, hname⟩ | ⟨x, hlit, _⟩
  · have hx : ∀ c ∈ x, (c == '=') = false := fun c hc => beq_false_of_ne fun he =>
      h.noEquals (by rw [hname]; exact List.mem_append_left _ (he ▸ hc))
    rw [hq, splitRuns_name] at hvalue
    cases x with
    | nil => exact absurd hvalue (by simp [words_nil])
    | cons c x =>
      rw [words_single (List.cons_ne_nil c x) hx] at hvalue
      cases hvalue
      rw [hname, List.length_append]
      exact Nat.lt_add_of_pos_right (List.length_pos_iff.mpr hr)
  · have hnone := value_start q ((List.mem_inits _ _).mpr ⟨x, hlit.symm⟩)
    exact absurd (hvalue.symm.trans hnone) (Option.some_ne_none value)

/-- What is read of a part without a comma. -/
theorem readPart_noComma (hq : ',' ∉ q) (hread : readPart q = some (some name, text)) :
    text = q ∧ ∃ value, (splitRuns (fun c => c == '=') q)[1]? = some value ∧ name = trim value := by
  have hsingle : splitRuns (fun c => c == ',') q = [q] :=
    splitRuns_single fun x hx => beq_false_of_ne fun he => hq (he ▸ hx)
  unfold readPart getValueFromMessageByName at hread
  rw [hsingle, realMessage_noComma hq] at hread
  cases hstart : startsWith q "name".toList with
  | false =>
    have hfind : [q].find? (fun item => startsWith item "name".toList) = none :=
      List.find?_cons_of_neg (by rw [hstart]; exact Bool.false_ne_true)
    rw [hfind] at hread
    exact absurd hread (by simp)
  | true =>
    have hfind : [q].find? (fun item => startsWith item "name".toList) = some q := List.find?_cons_of_pos hstart
    rw [hfind] at hread
    obtain ⟨x, hx, heq⟩ := Option.map_eq_some_iff.mp hread
    obtain ⟨value, hvalue, rfl⟩ := Option.map_eq_some_iff.mp hx
    cases heq
    exact ⟨rfl, value, hvalue, rfl⟩

/-- Where `parse` can lose the rest of a text: at white space, or at what `trim` takes off. -/
def Platform.Stops (j : Platform) (s : Str) : Prop := ∀ c ∈ s.head?, j.isSpace c = true ∨ c.toNat ≤ 0x20

theorem not_stops_comma (s : Str) : ¬ j.Stops (',' :: s) := by
  intro h
  rcases h ',' rfl with hspace | hctrl
  · exact absurd (hspace.symm.trans (j.isSpace_graphic ',' (by decide) (by decide))) Bool.noConfusion
  · exact absurd hctrl (by decide)

/-- **A report that is read as it was written was read whole.** -/
theorem report_whole (h : IsReport part name text) (hcut : part = q ++ r) (hr : j.Stops r)
    (hread : readPart q = some (some name, text)) : r = [] := by
  have hcut : "name=".toList ++ name ++ ',' :: text = q ++ r := h.shape.symm.trans hcut
  rcases List.append_eq_append_iff.mp hcut with ⟨x, hq, hx⟩ | ⟨x, hfront, hx⟩
  · cases x with
    | nil =>
      -- cut in front of the comma
      rw [List.nil_append] at hx
      exact absurd hr (hx ▸ not_stops_comma text)
    | cons c x =>
      obtain ⟨rfl, htext⟩ := List.cons.inj hx
      have hreal : getRealMessageFromMessage q = text := by
        obtain ⟨_, _, heq⟩ := Option.map_eq_some_iff.mp hread
        exact congrArg Prod.snd heq
      rw [hq, realMessage_comma (noComma_front h)] at hreal
      rw [← hreal] at htext
      exact List.append_right_eq_self.mp htext.symm
  · cases x with
    | nil =>
      rw [List.nil_append] at hx
      exact absurd hr (hx ▸ not_stops_comma text)
    | cons c x =>
      -- cut in the name
      have hq : ',' ∉ q := fun hmem => noComma_front h (by rw [hfront]; exact List.mem_append_left _ hmem)
      obtain ⟨_, value, hvalue, htrim⟩ := readPart_noComma hq hread
      have hshort := value_short h hfront (List.cons_ne_nil c x) hvalue
      rw [htrim] at hshort
      exact absurd hshort (Nat.not_lt.mpr (length_trimBy_le _ value))

/-- The same for what `trim` leaves. -/
theorem report_trim (h : IsReport part name text) (hcut : part = q ++ r) (hr : j.Stops r)
    (hread : readPart (trim q) = some (some name, text)) : r = [] ∧ trim part = part ∧ trim name = name := by
  have hwhole : r = [] ∧ trim q = q := by
    cases q with
    | nil =>
      have hnull : readPart (trim []) = some (none, []) := by decide
      rw [hnull] at hread
      exact absurd hread (by simp)
    | cons c q =>
      obtain ⟨rfl, _⟩ : c = 'n' ∧ _ = _ := List.cons.inj (hcut.symm.trans h.shape)
      obtain ⟨v, u, htrim, hq, hu⟩ :=
        trimBy_cut (q := fun c : Char => decide (c.toNat ≤ 0x20)) (x := 'n') (by decide) q
      have htrim : trim ('n' :: q) = 'n' :: v := htrim
      rw [htrim] at hread
      have hstops : j.Stops (u ++ r) := by
        cases u with
        | nil => exact hr
        | cons d u => exact fun e he => .inr (by cases he; exact of_decide_eq_true (hu d rfl))
      have hnil := report_whole h (q := 'n' :: v) (r := u ++ r) (by rw [hcut, hq]; simp) hstops hread
      obtain ⟨rfl, rfl⟩ := List.append_eq_nil_iff.mp hnil
      rw [List.append_nil] at hq
      exact ⟨rfl, by rw [htrim, hq]⟩
  obtain ⟨rfl, htrim⟩ := hwhole
  rw [List.append_nil] at hcut
  rw [htrim, ← hcut, readPart_report h] at hread
  refine ⟨rfl, by rw [hcut]; exact htrim, ?_⟩
  simpa using hread

end Report

/-! ## 2. The loop over the parts -/

/-- Messages recorded one after the other. -/
def recordAll (parentname : Str) (calls : List (Option Str × Str)) (c : MyParse) : MyParse :=
  calls.foldl (fun c x => chatparse .nodeList parentname x.1 x.2 c) c

/-- The message of a post. -/
def Posted.chat? : Posted → Option (Option Str × Str)
  | .chatUpdate name message => some (name, message)
  | _ => none

/-- The names the nodes belong to. -/
def parents (c : MyParse) : List Str := c.nodeList.map Item.parentname

section Record

variable {parentname : Str}

theorem parseParts_ok {parts : List Str} {c c' : MyParse} :
    parseParts parentname parts c = .ok c' ↔
      ∃ calls, List.Forall₂ (fun part call => readPart (trim part) = some call) parts calls ∧
        c' = recordAll parentname calls c := by
  induction parts generalizing c with
  | nil =>
    constructor
    · intro h
      cases h
      exact ⟨[], .nil, rfl⟩
    · rintro ⟨calls, hcalls, rfl⟩
      cases hcalls
      rfl
  | cons part parts ih =>
    unfold parseParts
    cases hread : readPart (trim part) with
    | none =>
      constructor
      · intro h
        cases h
      · rintro ⟨calls, hcalls, rfl⟩
        cases hcalls with
        | cons hcall _ => exact absurd (hread.symm.trans hcall) (Option.some_ne_none _).symm
    | some call =>
      refine ih.trans ⟨?_, ?_⟩
      · rintro ⟨calls, hcalls, rfl⟩
        exact ⟨call :: calls, .cons hread hcalls, rfl⟩
      · rintro ⟨calls, hcalls, rfl⟩
        cases hcalls with
        | cons hcall hcalls =>
          cases hread.symm.trans hcall
          exact ⟨_, hcalls, rfl⟩

theorem chats_recordAll (calls : List (Option Str × Str)) (c : MyParse) :
    (recordAll parentname calls c).posted.filterMap Posted.chat? = c.posted.filterMap Posted.chat? ++ calls := by
  induction calls generalizing c with
  | nil => exact (List.append_nil _).symm
  | cons call calls ih =>
    have hcall : (chatparse .nodeList parentname call.1 call.2 c).posted =
        c.posted ++ [.userNodeInfoUpdate .nodeList] ++ [.chatUpdate call.1 call.2] := rfl
    refine (ih (chatparse .nodeList parentname call.1 call.2 c)).trans ?_
    rw [hcall, List.filterMap_append, List.filterMap_append, List.append_assoc, List.append_assoc]
    rfl

/-- A message changes no parent. -/
theorem parents_message (name : Option Str) (message : Str) (c : MyParse) :
    parents (chatparse .nodeList parentname name message c) =
      parents (userOrNodeinfoparse .nodeList parentname name "on".toList c) := map_modifyFirst fun _ _ => rfl

theorem parents_chatparse (name : Option Str) (message : Str) (c : MyParse) :
    parents c <+: parents (chatparse .nodeList parentname name message c) := by
  rw [parents_message]
  show _ <+: (ite _ _ _ : List Item).map Item.parentname
  split
  · refine ⟨[], ?_⟩
    rw [List.append_nil]
    refine (map_modifyFirst ?_).symm
    exact fun _ _ => rfl
  · unfold insertNewUserOrNode
    rw [List.map_append]
    exact List.prefix_append _ _

theorem parents_recordAll (calls : List (Option Str × Str)) (c : MyParse) :
    parents c <+: parents (recordAll parentname calls c) := by
  induction calls generalizing c with
  | nil => exact List.prefix_rfl
  | cons call calls ih => exact (parents_chatparse call.1 call.2 c).trans (ih _)

/-- The first entry that is made belongs to the sender. -/
theorem parents_first {calls : List (Option Str × Str)} (h : calls ≠ []) :
    [parentname] <+: parents (recordAll parentname calls .fresh) := by
  cases calls with
  | nil => exact absurd rfl h
  | cons call calls =>
    have hone : parents (chatparse .nodeList parentname call.1 call.2 .fresh) = [parentname] :=
      parents_message call.1 call.2 .fresh
    rw [← hone]
    exact parents_recordAll calls _

/-- **What was recorded tells the sender and the messages.** -/
theorem recordAll_inj {parentname' : Str} {calls calls' : List (Option Str × Str)} (hne : calls ≠ [])
    (h : recordAll parentname calls .fresh = recordAll parentname' calls' .fresh) :
    parentname = parentname' ∧ calls = calls' := by
  have hcalls : calls = calls' := by
    have hposted := congrArg (fun c : MyParse => c.posted.filterMap Posted.chat?) h
    simp only [chats_recordAll] at hposted
    exact hposted
  refine ⟨?_, hcalls⟩
  have hfirst : [parentname] <+: parents (recordAll parentname calls .fresh) := parents_first hne
  have hfirst' : [parentname'] <+: parents (recordAll parentname' calls' .fresh) := parents_first (hcalls ▸ hne)
  rw [← h] at hfirst'
  have heq := (List.prefix_of_prefix_length_le hfirst hfirst' (Nat.le_refl 1)).eq_of_length rfl
  exact (List.cons.inj heq).1

end Record

/-! ## 3. All the reports of a message -/

/-- The calls of `chatparse` that reports ask for. -/
def callsOf (rs : List (Str × Str)) : List (Option Str × Str) := rs.map fun r => (some r.1, r.2)

/-- A message that is read as it was written: reports only, no white space, and nothing at the ends of
    the parts and the names that `trim` would take off. -/
def Platform.Readable (j : Platform) (message : Str) : Prop :=
  ∃ rs, Reports message rs ∧ j.Plain message ∧ (∀ part ∈ message.splitOn ';', trim part = part) ∧
    ∀ r ∈ rs, trim r.1 = r.1

section Message

variable {j : Platform}

/-- A message of reports begins with one. -/
theorem reports_start {message : Str} {rs : List (Str × Str)} (h : Reports message rs) :
    ∃ t, message = 'n' :: t := by
  have hjoin : [';'].intercalate (message.splitOn ';') = message := List.intercalate_splitOn ';'
  unfold Reports at h
  cases hparts : message.splitOn ';' with
  | nil => exact absurd hparts (List.splitOn_ne_nil _ _)
  | cons part parts =>
    rw [hparts] at h hjoin
    cases h with
    | cons hpart _ =>
      cases parts with
      | nil | cons => exact ⟨_, by rw [← hjoin, hpart.shape]; rfl⟩

/-- What is read of a message is a beginning of it, and all of it only if it is a plain word. -/
theorem first_message (t : Str) : ∃ v r, 'n' :: t = v ++ r ∧ j.Stops r ∧ (r = [] → j.Plain ('n' :: t)) ∧
    ((words j.isSpace (readLine ('n' :: t ++ "\r\n".toList))).map trim)[0]? = some v ∧ ∃ v', v = 'n' :: v' := by
  have hn : j.isSpace 'n' = false := j.isSpace_graphic 'n' (by decide) (by decide)
  -- the first word, and what `trim` leaves of it
  obtain ⟨w, z, ht, hw, hz⟩ : ∃ w z, t = w ++ z ∧ (∀ c ∈ w, j.isSpace c = false) ∧ j.Ends z := by
    refine ⟨t.takeWhile fun c => !j.isSpace c, t.dropWhile fun c => !j.isSpace c,
      List.takeWhile_append_dropWhile.symm, fun c hc => ?_, fun c hc => ?_⟩
    · simpa using List.mem_takeWhile_imp hc
    · have hstop := List.head?_dropWhile_not (fun c => !j.isSpace c) t
      rw [hc] at hstop
      simpa using hstop
  obtain ⟨v, u, htrim, hwu, hu⟩ := trimBy_cut (q := fun c : Char => decide (c.toNat ≤ 0x20)) (x := 'n') (by decide) w
  have htrim : trim ('n' :: w) = 'n' :: v := htrim
  have hword : ∀ c ∈ 'n' :: w, j.isSpace c = false := fun c hc => by
    rcases List.mem_cons.mp hc with rfl | hc
    · exact hn
    · exact hw c hc
  have hends : j.Ends (z ++ "\r\n".toList) := by
    cases z with
    | nil => exact ends_eol
    | cons c z => exact fun d hd => hz d hd
  refine ⟨'n' :: v, u ++ z, ?_, ?_, fun hnil => ?_, ?_, v, rfl⟩
  · rw [ht, hwu, List.append_assoc]
    rfl
  · cases u with
    | nil => exact fun c hc => .inl (hz c hc)
    | cons d u => exact fun e he => .inr (by cases he; exact of_decide_eq_true (hu d rfl))
  · obtain ⟨rfl, rfl⟩ := List.append_eq_nil_iff.mp hnil
    rw [List.append_nil] at ht hwu
    rw [ht]
    exact ⟨List.cons_ne_nil _ _, hword, by rw [htrim, hwu]⟩
  · have hcut : 'n' :: t ++ "\r\n".toList = ('n' :: w) ++ (z ++ "\r\n".toList) := by
      rw [ht, List.cons_append, List.cons_append, List.append_assoc]
    rw [hcut, readLine_append hword, words_word (List.cons_ne_nil _ _) hword (ends_readLine hends), List.map_cons,
      htrim]
    rfl

/-- Parts that are read as the reports of the message are all of it. -/
theorem reports_whole {last r : Str} (hr : j.Stops r) : ∀ {vs : List Str} {rs : List (Str × Str)},
    List.Forall₂ (fun part x => IsReport part x.1 x.2) (vs ++ [last ++ r]) rs →
    List.Forall₂ (fun part call => readPart (trim part) = some call) (vs ++ [last]) (callsOf rs) →
    r = [] ∧ (∀ part ∈ vs ++ [last ++ r], trim part = part) ∧ ∀ x ∈ rs, trim x.1 = x.1
  | [], rs, hreports, hcalls => by
    cases hreports with
    | cons hpart hnil =>
      cases hnil
      cases hcalls with
      | cons hcall _ =>
        obtain ⟨hwhole, htrim, hname⟩ := report_trim hpart rfl hr hcall
        refine ⟨hwhole, fun part hmem => ?_, fun x hx => ?_⟩
        · rw [List.mem_singleton.mp hmem]
          exact htrim
        · rw [List.mem_singleton.mp hx]
          exact hname
  | v :: vs, rs, hreports, hcalls => by
    cases hreports with
    | cons hpart hreports =>
      cases hcalls with
      | cons hcall hcalls =>
        obtain ⟨hwhole, hparts, hnames⟩ := reports_whole hr hreports hcalls
        have hnone : j.Stops [] := fun c hc => absurd hc (by simp)
        obtain ⟨_, htrim, hname⟩ := report_trim hpart (List.append_nil v).symm hnone hcall
        refine ⟨hwhole, fun part hmem => ?_, fun x hx => ?_⟩
        · rcases List.mem_cons.mp hmem with rfl | hmem
          · exact htrim
          · exact hparts part hmem
        · rcases List.mem_cons.mp hx with rfl | hx
          · exact hname
          · exact hnames x hx

/-- A message of which the first part that is read gives all its reports is readable. -/
theorem readable_of_calls {message v r : Str} {rs : List (Str × Str)} (hreports : Reports message rs)
    (hcut : message = v ++ r) (hstops : j.Stops r) (hplain : r = [] → j.Plain message)
    (hcalls : List.Forall₂ (fun part call => readPart (trim part) = some call) (splitEach ';' v) (callsOf rs)) :
    j.Readable message := by
  have hlength : (splitEach ';' v).length = (message.splitOn ';').length := by
    rw [hcalls.length_eq, hreports.length_eq]
    exact List.length_map _
  have hpieces := splitEach_prefix ';' v
  have hle := hpieces.length_le
  rw [hlength, hcut, length_splitOn, length_splitOn, List.count_append] at hle
  -- as many parts are read as there are, so none was left out
  have hnone : ';' ∉ r := List.count_eq_zero.mp (by omega)
  have hall : splitEach ';' v = v.splitOn ';' := by
    refine hpieces.eq_of_length ?_
    rw [hlength, hcut, length_splitOn, length_splitOn, List.count_append, List.count_eq_zero.mpr hnone, Nat.add_zero]
  obtain ⟨vs, last, hv, hvr⟩ := splitOn_append (v := v) hnone
  have hmessage : message.splitOn ';' = vs ++ [last ++ r] := by rw [hcut, hvr]
  have hparts := hreports
  unfold Reports at hparts
  rw [hmessage] at hparts
  rw [hall, hv] at hcalls
  obtain ⟨hwhole, htrims, hnames⟩ := reports_whole hstops hparts hcalls
  rw [← hmessage] at htrims
  exact ⟨rs, hreports, hplain hwhole, htrims, hnames⟩

/-- Parts that `trim` leaves alone are read as they were written, and none of them is empty. -/
theorem reports_read {parts : List Str} {rs : List (Str × Str)}
    (hreports : List.Forall₂ (fun part x => IsReport part x.1 x.2) parts rs) (hparts : ∀ part ∈ parts, trim part = part)
    (hnames : ∀ x ∈ rs, trim x.1 = x.1) : (∀ part ∈ parts, part ≠ []) ∧
      List.Forall₂ (fun part call => readPart (trim part) = some call) parts (callsOf rs) := by
  induction hreports with
  | nil => exact ⟨fun part hpart => absurd hpart List.not_mem_nil, .nil⟩
  | @cons part x parts rs hpart _ ih =>
    obtain ⟨hne, hcalls⟩ := ih (fun q hq => hparts q (List.mem_cons_of_mem _ hq))
      fun y hy => hnames y (List.mem_cons_of_mem _ hy)
    refine ⟨fun q hq => ?_, .cons ?_ hcalls⟩
    · rcases List.mem_cons.mp hq with rfl | hq
      · rw [hpart.shape]
        exact List.append_ne_nil_of_right_ne_nil _ (List.cons_ne_nil _ _)
      · exact hne q hq
    · rw [hparts part List.mem_cons_self, readPart_report hpart, hnames x List.mem_cons_self]

end Message

end SmartHome.Android
