/-
  Subject:   DEVICE REPORTS AND THEIR FILES: `node ok <parent> name=<name>,<text>;name=<name>,<text>` ...

  A line reports one or several devices, some of them maybe several times. Each report is to end up with the
  messages of its device. Two things go wrong. A report without a name is an exception, and with it all
  reports behind it are lost. And control characters that are not white space disappear where `trim` finds
  them: around the parent, around a name, behind a text.

  * `DeviceReport`, `ReportLine` -- such a line; `parse_line` -- which messages are recorded for it;
  * `lookup_chatparse`, `lookup_recordAll` -- what one message changes, and what many do;
  * `Filed` -- the reports of a line are with their devices, and nothing else has changed;
  * `Counted` -- the number kept with an entry is the number of its messages, in every run (`counted_run`);
  * **`filed_iff`** -- both, the first exactly for the lines with names and without such characters;
    `unnamed_lost` -- a report without a name, and the one behind it.
-/
import Mathlib.Algebra.Group.Nat.Defs
import SmartHome.Android.NodeReports
import SmartHome.Lib.Loop

namespace SmartHome.Android

open SmartHome.Lib

/-! ## 1. Lines of reports -/

/-- One report, without white space and semicolons, and in the name no comma and no `=`. -/
structure DeviceReport (j : Platform) where
  name : Str
  payload : Str
  payload_ne : payload ≠ []
  noSpace : ∀ c ∈ name ++ payload, j.isSpace c = false
  noSemicolon : ';' ∉ name ++ payload
  noComma : ',' ∉ name
  noEquals : '=' ∉ name

/-- A line of reports. -/
structure ReportLine (j : Platform) where
  parent : Str
  reports : List (DeviceReport j)
  parent_noSpace : ∀ c ∈ parent, j.isSpace c = false
  reports_ne : reports ≠ []

variable {j : Platform}

/-- `name=<name>,<text>`. -/
def reportText (name payload : Str) : Str := "name=".toList ++ name ++ ',' :: payload

theorem reportText_eq (name payload : Str) : reportText name payload = "name=".toList ++ name ++ ',' :: payload := rfl

/-- The reports between semicolons. -/
def ReportLine.message (l : ReportLine j) : Str :=
  [';'].intercalate (l.reports.map fun r => reportText r.name r.payload)

/-- The line. -/
def ReportLine.line (l : ReportLine j) : Str :=
  "node".toList ++ ' ' :: ("ok".toList ++ ' ' :: (l.parent ++ ' ' :: l.message))

theorem ReportLine.line_eq (l : ReportLine j) :
    l.line = "node".toList ++ ' ' :: ("ok".toList ++ ' ' :: (l.parent ++ ' ' :: l.message)) := rfl

/-- What `trim` takes off. -/
def isControl (c : Char) : Bool := decide (c.toNat ≤ 0x20)

/-- A text without what `trim` takes off its end. -/
def cutEnd (s : Str) : Str := s.rdropWhile isControl

/-- The calls of `chatparse` for reports: up to the first without a name. -/
def callsRead (rs : List (DeviceReport j)) : List (Option Str × Str) :=
  (rs.takeWhile fun r => r.name ≠ []).map fun r => (some (trim r.name), cutEnd r.payload)

/-! ## 2. Which messages are recorded -/

/-- The state after `parse` returned, with an exception or without. -/
def afterwards : Except MyParse MyParse → MyParse
  | .ok c => c
  | .error c => c

theorem parse_snd (line : Str) (c : MyParse) : (parse j line c).2 = afterwards (parseLine j line c) := by
  unfold parse
  cases parseLine j line c with
  | ok | error => rfl

theorem trim_reportText (name payload : Str) : trim (reportText name payload) = reportText name (cutEnd payload) :=
  trimBy_append_cons (by decide) (by decide) ("ame=".toList ++ name) payload

/-- **What is read of a report**: nothing without a name. -/
theorem readPart_reportText {name payload : Str} (hcomma : ',' ∉ name) (hequals : '=' ∉ name) :
    readPart (reportText name payload) = if name = [] then none else some (some (trim name), payload) := by
  by_cases hname : name = []
  · rw [if_pos hname, hname]
    have hplain : ("name=".toList.all fun c => c != ',') = true := by decide
    have hnone : ∀ c ∈ "name=".toList, (c == ',') = false := fun c hc =>
      beq_eq_false_iff_ne.2 (bne_iff_ne.1 (List.all_eq_true.1 hplain c hc))
    have hitems : splitRuns (fun c => c == ',') (reportText [] payload) =
        "name=".toList :: words (fun c => c == ',') (',' :: payload) :=
      splitRuns_word (by decide) hnone fun c hc => by cases hc; rfl
    unfold readPart getValueFromMessageByName
    rw [hitems, List.find?_cons_of_pos rfl]
    rfl
  · rw [if_neg hname]
    exact readPart_report ⟨rfl, hname, hcomma, hequals⟩

theorem parseParts_reports {parentname : Str} {parts : List Str} {rs : List (DeviceReport j)}
    (h : List.Forall₂ (fun part r => trim part = reportText r.name (cutEnd r.payload)) parts rs) (c : MyParse) :
    afterwards (parseParts parentname parts c) = recordAll parentname (callsRead rs) c := by
  induction h generalizing c with
  | nil => rfl
  | @cons part r parts rs hpart _ ih =>
    rw [parseParts, hpart, readPart_reportText r.noComma r.noEquals]
    by_cases hname : r.name = []
    · rw [if_pos hname, callsRead, List.takeWhile_cons_of_neg (by simp [hname])]
      rfl
    · rw [if_neg hname, callsRead, List.takeWhile_cons_of_pos (by simp [hname])]
      exact ih _

/-- The last of the parts between semicolons. -/
theorem intercalate_concat (xs : List Str) : ∃ front : Str, ∀ y : Str, [';'].intercalate (xs ++ [y]) = front ++ y := by
  induction xs with
  | nil => exact ⟨[], fun y => by simp⟩
  | cons x xs ih =>
    obtain ⟨front, hfront⟩ := ih
    refine ⟨x ++ ';' :: front, fun y => ?_⟩
    have hne : xs ++ [y] ≠ [] := List.append_ne_nil_of_right_ne_nil _ (List.cons_ne_nil _ _)
    rw [List.cons_append, List.intercalate_cons_of_ne_nil hne, hfront, List.append_assoc, List.cons_append]
    simp

theorem forall_mem_intercalate {P : Char → Prop} (hsep : P ';') {xs : List Str} (h : ∀ x ∈ xs, ∀ c ∈ x, P c) :
    ∀ c ∈ [';'].intercalate xs, P c := by
  induction xs with
  | nil => exact fun c hc => absurd hc (by simp)
  | cons x xs ih =>
    have hrest := ih fun y hy => h y (List.mem_cons_of_mem x hy)
    cases xs with
    | nil =>
      rw [List.intercalate_singleton]
      exact h x List.mem_cons_self
    | cons y ys =>
      rw [List.intercalate_cons_of_ne_nil (List.cons_ne_nil y ys)]
      intro c hc
      rcases List.mem_append.1 hc with hc | hc
      · rcases List.mem_append.1 hc with hc | hc
        · exact h x List.mem_cons_self c hc
        · rw [List.mem_singleton.1 hc]
          exact hsep
      · exact hrest c hc

theorem semicolon_reportText {name payload : Str} (h : ';' ∉ name ++ payload) : ';' ∉ reportText name payload := by
  rw [reportText_eq, List.mem_append, List.mem_append, List.mem_cons]
  rintro ((hlit | hname) | hcomma | hpayload)
  · exact absurd hlit (by decide)
  · exact h (List.mem_append_left _ hname)
  · exact absurd hcomma (by decide)
  · exact h (List.mem_append_right _ hpayload)

theorem cutEnd_cutEnd (s : Str) : cutEnd (cutEnd s) = cutEnd s := List.rdropWhile_idempotent isControl s

section Line

variable (l : ReportLine j)

theorem message_start : ∃ t, l.message = 'n' :: t := by
  obtain ⟨r, rs, hrs⟩ := List.exists_cons_of_ne_nil l.reports_ne
  unfold ReportLine.message
  rw [hrs, List.map_cons]
  cases rs with
  | nil | cons => exact ⟨_, rfl⟩

theorem noSpace_message : ∀ c ∈ l.message, j.isSpace c = false := by
  have hgraphic : ∀ s : Str, Graphic s → ∀ c ∈ s, j.isSpace c = false := fun s hs => hs.plain.noSpace
  refine forall_mem_intercalate (j.isSpace_graphic ';' (by decide) (by decide)) fun part hpart c hc => ?_
  obtain ⟨r, -, rfl⟩ := List.mem_map.1 hpart
  rw [reportText_eq, List.mem_append, List.mem_append, List.mem_cons] at hc
  rcases hc with (hc | hc) | rfl | hc
  · exact hgraphic "name=".toList (by decide) c hc
  · exact r.noSpace c (List.mem_append_left _ hc)
  · exact j.isSpace_graphic ',' (by decide) (by decide)
  · exact r.noSpace c (List.mem_append_right _ hc)

/-- What the parts are after the message as a whole was trimmed. -/
theorem trim_message : ∃ parts, splitEach ';' (trim l.message) = parts ∧
    List.Forall₂ (fun part r => trim part = reportText r.name (cutEnd r.payload)) parts l.reports := by
  obtain ⟨init, last, hrs⟩ : ∃ init last, l.reports = init ++ [last] :=
    ⟨_, _, (List.dropLast_append_getLast l.reports_ne).symm⟩
  obtain ⟨front, hfront⟩ := intercalate_concat (init.map fun r => reportText r.name r.payload)
  obtain ⟨t, ht⟩ := message_start l
  have hmessage : l.message = front ++ ("name=".toList ++ last.name) ++ ',' :: last.payload := by
    rw [ReportLine.message, hrs, List.map_append, List.append_assoc]
    exact hfront _
  -- only the last text can lose something
  have htrim : trim l.message =
      [';'].intercalate
        (init.map (fun r => reportText r.name r.payload) ++ [reportText last.name (cutEnd last.payload)]) := by
    have hdrop : l.message.dropWhile isControl = l.message := by
      rw [ht]
      exact List.dropWhile_cons_of_neg (by decide)
    show (l.message.dropWhile isControl).rdropWhile isControl = _
    rw [hdrop, hmessage, rdropWhile_append_cons (by decide), hfront, reportText_eq, List.append_assoc]
    rfl
  have hcut : ∀ c ∈ cutEnd last.payload, c ∈ last.payload := fun c hc => (List.rdropWhile_prefix _ _).mem hc
  have hparts : ∀ part ∈
      init.map (fun r => reportText r.name r.payload) ++ [reportText last.name (cutEnd last.payload)],
      ';' ∉ part ∧ part ≠ [] := by
    intro part hpart
    rcases List.mem_append.1 hpart with hpart | hpart
    · obtain ⟨r, -, rfl⟩ := List.mem_map.1 hpart
      exact ⟨semicolon_reportText r.noSemicolon, List.cons_ne_nil _ _⟩
    · rw [List.mem_singleton.1 hpart]
      refine ⟨semicolon_reportText fun h => last.noSemicolon ?_, List.cons_ne_nil _ _⟩
      rcases List.mem_append.1 h with h | h
      · exact List.mem_append_left _ h
      · exact List.mem_append_right _ (hcut _ h)
  have hsplit := List.splitOn_intercalate ';' (fun part hpart => (hparts part hpart).1)
    (List.append_ne_nil_of_right_ne_nil _ (List.cons_ne_nil _ _))
  refine ⟨_, rfl, ?_⟩
  rw [htrim, splitEach_eq (by rw [hsplit]; exact fun part hpart => (hparts part hpart).2), hsplit, hrs]
  refine List.rel_append ?_ (.cons ?_ .nil)
  · rw [List.forall₂_map_left_iff]
    exact List.forall₂_same.2 fun r _ => trim_reportText r.name r.payload
  · rw [trim_reportText, cutEnd_cutEnd]

/-- **What `parse` records for a line.** -/
theorem parse_line (hparent : l.parent ≠ []) (c : MyParse) :
    (parse j l.line c).2 = recordAll (trim l.parent) (callsRead l.reports) c := by
  have hne : l.message ≠ [] := by
    obtain ⟨t, ht⟩ := message_start l
    rw [ht]
    exact List.cons_ne_nil _ _
  have hwords : words j.isSpace (l.parent ++ ' ' :: l.message) = [l.parent, l.message] := by
    rw [words_word hparent l.parent_noSpace (ends_blank _), words_blank, words_single hne (noSpace_message l)]
  obtain ⟨parts, hparts, hread⟩ := trim_message l
  rw [parse_snd, l.line_eq, parseLine_words (by decide) (by decide) fun _ => rfl, hwords]
  show afterwards (dispatch j _ (trim l.parent) (trim l.message) c) = _
  rw [dispatch_node, hparts]
  exact parseParts_reports hread c

theorem parse_noParent (hparent : l.parent = []) (c : MyParse) : (parse j l.line c).2 = c := by
  have hne : l.message ≠ [] := by
    obtain ⟨t, ht⟩ := message_start l
    rw [ht]
    exact List.cons_ne_nil _ _
  have hwords : words j.isSpace (l.parent ++ ' ' :: l.message) = [l.message] := by
    rw [hparent, List.nil_append, words_blank, words_single hne (noSpace_message l)]
  rw [parse_snd, l.line_eq, parseLine_words (by decide) (by decide) fun _ => rfl, hwords]
  rfl

end Line

/-! ## 3. Entries -/

/-- An entry that is made. -/
def newItem (parentname : Str) (name : Option Str) : Item := ⟨parentname, name, 0, [], "on".toList⟩

/-- An entry whose line is put on. -/
def Item.on (x : Item) : Item := { x with line := "on".toList }

/-- An entry with one more message. -/
def Item.push (message : Str) (x : Item) : Item :=
  { x with messagesize := x.messagesize + 1, messages := x.messages ++ [message] }

/-- The device, or the one that is made for it. -/
def MyParse.device (c : MyParse) (parentname : Str) (name : Option Str) : Item :=
  (c.lookup .nodeList name).getD (newItem parentname name)

section Lookup

variable (parentname : Str) (name : Option Str) (message : Str) (c : MyParse)

theorem lookup_info :
    (userOrNodeinfoparse .nodeList parentname name "on".toList c).lookup .nodeList name =
      some (c.device parentname name).on := by
  have hself : ∀ x : Item, (x.on.name == name) = (x.name == name) := fun _ => rfl
  by_cases hany : (c.nodeList.any fun x => x.name == name) = true
  · have hlist : (userOrNodeinfoparse .nodeList parentname name "on".toList c).nodeList =
        modifyFirst (fun x => x.name == name) Item.on c.nodeList := if_pos hany
    obtain ⟨x, hx, hname⟩ := List.any_eq_true.1 hany
    obtain ⟨y, hy⟩ : ∃ y, c.nodeList.find? (fun x => x.name == name) = some y :=
      Option.isSome_iff_exists.1 (List.find?_isSome.2 ⟨x, hx, hname⟩)
    have hdevice : c.device parentname name = y := congrArg (Option.getD · _) hy
    show List.find? _ (userOrNodeinfoparse .nodeList parentname name "on".toList c).nodeList = _
    rw [hlist, find?_modifyFirst hself, hy, hdevice]
    rfl
  · have hlist : (userOrNodeinfoparse .nodeList parentname name "on".toList c).nodeList =
        c.nodeList ++ [newItem parentname name] := if_neg hany
    have hnone : c.nodeList.find? (fun x => x.name == name) = none :=
      List.find?_eq_none.2 fun x hx hname => hany (List.any_eq_true.2 ⟨x, hx, hname⟩)
    have hdevice : c.device parentname name = newItem parentname name := congrArg (Option.getD · _) hnone
    show List.find? _ (userOrNodeinfoparse .nodeList parentname name "on".toList c).nodeList = _
    rw [hlist, List.find?_append, hnone, Option.none_or, List.find?_cons_of_pos (by simp [newItem]), hdevice]
    rfl

/-- **What a message changes of its device**: it is there, on, and has the message. -/
theorem lookup_chatparse :
    (chatparse .nodeList parentname name message c).lookup .nodeList name =
      some ((c.device parentname name).on.push message) := by
  have hinfo := lookup_info parentname name c
  have hlist : (chatparse .nodeList parentname name message c).nodeList =
      modifyFirst (fun x => x.name == name) (Item.push message)
        (userOrNodeinfoparse .nodeList parentname name "on".toList c).nodeList := rfl
  have hself : ∀ x : Item, ((x.push message).name == name) = (x.name == name) := fun _ => rfl
  show List.find? _ (chatparse .nodeList parentname name message c).nodeList = _
  rw [hlist, find?_modifyFirst hself]
  exact congrArg (Option.map _) hinfo

variable {name} in
/-- And of the others nothing. -/
theorem lookup_chatparse_of_ne {other : Option Str} (h : other ≠ name) :
    (chatparse .nodeList parentname name message c).lookup .nodeList other = c.lookup .nodeList other := by
  have hne : ∀ f : Item → Item, (∀ x, (f x).name = x.name) → ∀ l : List Item,
      (modifyFirst (fun x => x.name == name) f l).find? (fun x => x.name == other) =
        l.find? fun x => x.name == other := by
    intro f hf l
    refine find?_modifyFirst_of_ne fun x hx => ?_
    have hx : x.name = name := by simpa using List.find?_some hx
    have hother : (x.name == other) = false := beq_false_of_ne fun he => h (he.symm.trans hx)
    refine ⟨hother, ?_⟩
    rw [hf]
    exact hother
  have hlist : (chatparse .nodeList parentname name message c).nodeList =
      modifyFirst (fun x => x.name == name) (Item.push message)
        (userOrNodeinfoparse .nodeList parentname name "on".toList c).nodeList := rfl
  show List.find? _ (chatparse .nodeList parentname name message c).nodeList = _
  rw [hlist, hne (Item.push message) fun _ => rfl]
  by_cases hany : (c.nodeList.any fun x => x.name == name) = true
  · have hinfo : (userOrNodeinfoparse .nodeList parentname name "on".toList c).nodeList =
        modifyFirst (fun x => x.name == name) Item.on c.nodeList := if_pos hany
    rw [hinfo, hne Item.on fun _ => rfl]
    rfl
  · have hinfo : (userOrNodeinfoparse .nodeList parentname name "on".toList c).nodeList =
        c.nodeList ++ [newItem parentname name] := if_neg hany
    rw [hinfo, List.find?_append, List.find?_cons_of_neg (by simpa [newItem] using h.symm), List.find?_nil,
      Option.or_none]
    rfl

/-- The messages among calls that are for a name. -/
def messagesFor (name : Option Str) (calls : List (Option Str × Str)) : List Str :=
  (calls.filter fun call => call.1 == name).map Prod.snd

variable {name} in
theorem messagesFor_cons {call : Option Str × Str} (h : call.1 = name) (calls : List (Option Str × Str)) :
    messagesFor name (call :: calls) = call.2 :: messagesFor name calls := by
  rw [messagesFor, List.filter_cons_of_pos (by simp [h])]
  rfl

variable {name} in
theorem messagesFor_cons_of_ne {call : Option Str × Str} (h : call.1 ≠ name) (calls : List (Option Str × Str)) :
    messagesFor name (call :: calls) = messagesFor name calls := by
  rw [messagesFor, List.filter_cons_of_neg (by simpa using h)]
  rfl

variable {name} in
theorem messagesFor_of_none {calls : List (Option Str × Str)} (h : ∀ call ∈ calls, call.1 ≠ name) :
    messagesFor name calls = [] := by
  rw [messagesFor, List.filter_eq_nil_iff.2 fun call hcall => by simpa using h call hcall]
  rfl

/-- The device after a message for it. -/
theorem device_chatparse :
    (chatparse .nodeList parentname name message c).device parentname name =
      (c.device parentname name).on.push message :=
  congrArg (Option.getD · _) (lookup_chatparse parentname name message c)

variable {name} in
theorem device_chatparse_of_ne {other : Option Str} (h : other ≠ name) :
    (chatparse .nodeList parentname name message c).device parentname other = c.device parentname other :=
  congrArg (Option.getD · _) (lookup_chatparse_of_ne parentname message c h)

variable {name} in
theorem lookup_recordAll_of_none {calls : List (Option Str × Str)} (h : ∀ call ∈ calls, call.1 ≠ name) :
    (recordAll parentname calls c).lookup .nodeList name = c.lookup .nodeList name := by
  induction calls generalizing c with
  | nil => rfl
  | cons call calls ih =>
    refine (ih _ fun d hd => h d (List.mem_cons_of_mem _ hd)).trans ?_
    exact lookup_chatparse_of_ne parentname _ c (h call List.mem_cons_self).symm

variable {name} in
/-- **What many messages change of a device**: it gets those for it, in their order. -/
theorem lookup_recordAll {calls : List (Option Str × Str)} (h : ∃ call ∈ calls, call.1 = name) :
    ∃ x, (recordAll parentname calls c).lookup .nodeList name = some x ∧
      x.parentname = (c.device parentname name).parentname ∧ x.line = "on".toList ∧
      x.messages = (c.device parentname name).messages ++ messagesFor name calls := by
  induction calls generalizing c with
  | nil =>
    obtain ⟨_, hmem, _⟩ := h
    exact absurd hmem List.not_mem_nil
  | cons call calls ih =>
    by_cases hcall : call.1 = name
    · subst hcall
      rw [messagesFor_cons rfl]
      by_cases hmore : ∃ d ∈ calls, d.1 = call.1
      · obtain ⟨x, hx, hparent, hline, hmessages⟩ := ih (chatparse .nodeList parentname call.1 call.2 c) hmore
        rw [device_chatparse] at hparent hmessages
        refine ⟨x, hx, hparent, hline, hmessages.trans ?_⟩
        exact List.append_assoc _ [call.2] _
      · -- this was the last message for it
        have hnone : ∀ d ∈ calls, d.1 ≠ call.1 := fun d hd he => hmore ⟨d, hd, he⟩
        have hlast := lookup_chatparse parentname call.1 call.2 c
        refine ⟨_, (lookup_recordAll_of_none parentname _ hnone).trans hlast, rfl, rfl, ?_⟩
        rw [messagesFor_of_none hnone]
        rfl
    · have hrest : ∃ call ∈ calls, call.1 = name := by
        obtain ⟨d, hd, hname⟩ := h
        rcases List.mem_cons.1 hd with rfl | hd
        · exact absurd hname hcall
        · exact ⟨d, hd, hname⟩
      obtain ⟨x, hx, hparent, hline, hmessages⟩ := ih (chatparse .nodeList parentname call.1 call.2 c) hrest
      rw [device_chatparse_of_ne parentname _ c (Ne.symm hcall)] at hparent hmessages
      rw [messagesFor_cons_of_ne hcall]
      exact ⟨x, hx, hparent, hline, hmessages⟩

end Lookup

theorem userList_recordAll (parentname : Str) (calls : List (Option Str × Str)) (c : MyParse) :
    (recordAll parentname calls c).userList = c.userList := by
  induction calls generalizing c with
  | nil => rfl
  | cons call calls ih => exact ih _

/-! ## 4. Filed reports -/

/-- The texts reported for a name. -/
def ReportLine.payloads (l : ReportLine j) (name : Str) : List Str :=
  (l.reports.filter fun r => r.name == name).map DeviceReport.payload

/-- **The reports of a line are filed**: each device has its texts in their order and is on, a device not seen
    before belongs to the sender, and nothing else has changed. -/
structure Filed (l : ReportLine j) (c c' : MyParse) : Prop where
  reported : ∀ r ∈ l.reports, ∃ x, c'.lookup .nodeList (some r.name) = some x ∧
    x.parentname = (c.device l.parent (some r.name)).parentname ∧ x.line = "on".toList ∧
    x.messages = (c.device l.parent (some r.name)).messages ++ l.payloads r.name
  others : ∀ name, (∀ r ∈ l.reports, some r.name ≠ name) → c'.lookup .nodeList name = c.lookup .nodeList name
  users : c'.userList = c.userList

/-- There is a sender, every report has a name, and `trim` leaves them and the ends of the texts as they are. -/
structure Named (l : ReportLine j) : Prop where
  parent : l.parent ≠ [] ∧ trim l.parent = l.parent
  names : ∀ r ∈ l.reports, r.name ≠ [] ∧ trim r.name = r.name
  ends : ∀ r ∈ l.reports, cutEnd r.payload = r.payload

section Filing

variable {l : ReportLine j}

theorem callsRead_named {rs : List (DeviceReport j)} (h : ∀ r ∈ rs, r.name ≠ [] ∧ trim r.name = r.name) :
    callsRead rs = rs.map fun r => (some r.name, cutEnd r.payload) := by
  have hall : (rs.takeWhile fun r => r.name ≠ []) = rs :=
    List.takeWhile_eq_self_iff.2 fun r hr => decide_eq_true (h r hr).1
  rw [callsRead, hall]
  exact List.map_congr_left fun r hr => by rw [(h r hr).2]

/-- The messages recorded for a name, when all reports have theirs. -/
theorem messagesFor_named (rs : List (DeviceReport j)) (name : Str) :
    messagesFor (some name) (rs.map fun r => (some r.name, cutEnd r.payload)) =
      (rs.filter fun r => r.name == name).map fun r => cutEnd r.payload := by
  rw [messagesFor, List.filter_map, List.map_map]
  rfl

theorem called {rs : List (DeviceReport j)} {r : DeviceReport j} (h : r ∈ rs) :
    ∃ call ∈ rs.map (fun r => (some r.name, cutEnd r.payload)), call.1 = some r.name :=
  ⟨_, List.mem_map_of_mem h, rfl⟩

theorem filed_of_named (h : Named l) (c : MyParse) : Filed l c (parse j l.line c).2 := by
  have hcalls := callsRead_named h.names
  rw [parse_line l h.parent.1, h.parent.2, hcalls]
  refine ⟨fun r hr => ?_, fun name hname => ?_, userList_recordAll _ _ c⟩
  · obtain ⟨x, hx, hparent, hline, hmessages⟩ := lookup_recordAll l.parent c (called hr)
    refine ⟨x, hx, hparent, hline, hmessages.trans ?_⟩
    rw [messagesFor_named, ReportLine.payloads]
    exact congrArg _ (List.map_congr_left fun d hd => h.ends d (List.mem_of_mem_filter hd))
  · refine lookup_recordAll_of_none l.parent c fun call hcall => ?_
    obtain ⟨r, hr, rfl⟩ := List.mem_map.1 hcall
    exact hname r hr

/-- A name that was recorded is one that was read. -/
theorem mem_callsRead {rs : List (DeviceReport j)} {call : Option Str × Str} (h : call ∈ callsRead rs) :
    ∃ r ∈ rs, r.name ≠ [] ∧ call.1 = some (trim r.name) := by
  obtain ⟨r, hr, rfl⟩ := List.mem_map.1 h
  have hne := List.mem_takeWhile_imp hr
  exact ⟨r, (List.takeWhile_prefix _).mem hr, of_decide_eq_true hne, rfl⟩

/-- Where nothing was recorded before, a name that is looked up must have been read. -/
theorem named_of_filed (h : Filed l .fresh (parse j l.line .fresh).2) : Named l := by
  have hparent : l.parent ≠ [] := by
    intro hnil
    obtain ⟨r, hr⟩ := List.exists_mem_of_ne_nil _ l.reports_ne
    obtain ⟨x, hx, -⟩ := h.reported r hr
    rw [parse_noParent l hnil] at hx
    cases hx
  rw [parse_line l hparent] at h
  have hread : ∀ r ∈ l.reports, ∃ call ∈ callsRead l.reports, call.1 = some r.name := by
    intro r hr
    by_contra hnone
    obtain ⟨x, hx, -⟩ := h.reported r hr
    rw [lookup_recordAll_of_none _ _ fun call hcall he => hnone ⟨call, hcall, he⟩] at hx
    cases hx
  have htrim : ∀ r ∈ l.reports, trim r.name = r.name := by
    intro r hr
    obtain ⟨call, hcall, hname⟩ := hread r hr
    obtain ⟨d, -, -, hd⟩ := mem_callsRead hcall
    have heq : r.name = trim d.name := Option.some.inj (hname.symm.trans hd)
    rw [heq]
    exact trimBy_trimBy _ _
  have hne : ∀ r ∈ l.reports, r.name ≠ [] := by
    intro r hr
    obtain ⟨call, hcall, hname⟩ := hread r hr
    obtain ⟨d, hd, hdne, hdname⟩ := mem_callsRead hcall
    have heq : r.name = trim d.name := Option.some.inj (hname.symm.trans hdname)
    rw [heq, htrim d hd]
    exact hdne
  have hnames : ∀ r ∈ l.reports, r.name ≠ [] ∧ trim r.name = r.name := fun r hr => ⟨hne r hr, htrim r hr⟩
  rw [callsRead_named hnames] at h
  have hlook : ∀ r ∈ l.reports, trim l.parent = l.parent ∧
      (l.reports.filter fun d => d.name == r.name).map (fun d => cutEnd d.payload) = l.payloads r.name := by
    intro r hr
    obtain ⟨x, hx, hp, -, hm⟩ := h.reported r hr
    obtain ⟨y, hy, hp', -, hm'⟩ := lookup_recordAll (trim l.parent) .fresh (called hr)
    cases hx.symm.trans hy
    exact ⟨hp'.symm.trans hp, (messagesFor_named _ _).symm.trans (hm'.symm.trans hm)⟩
  obtain ⟨first, hfirst⟩ := List.exists_mem_of_ne_nil _ l.reports_ne
  refine ⟨⟨hparent, (hlook first hfirst).1⟩, hnames, fun r hr => ?_⟩
  exact List.map_inj_left.1 (hlook r hr).2 r (List.mem_filter.2 ⟨hr, beq_self_eq_true _⟩)

end Filing

/-! ## 5. The number of messages -/

/-- A line that comes in, or the chat screen opened for an entry (`myPreInit`). -/
inductive PhoneEvent where
  | line (text : Str)
  | opens (mylist : MyList) (talkToWho : Option Str)

/-- Messages that were shown are deleted. -/
def Item.burn (x : Item) : Item := { x with messagesize := 0, messages := [] }

/-- The part of `myPreInit` that is about the lists. -/
def myPreInit (mylist : MyList) (talkToWho : Option Str) (c : MyParse) : MyParse :=
  c.set mylist (modifyFirst (fun x => x.name == talkToWho) Item.burn (c.get mylist))

def phoneNext (j : Platform) (c : MyParse) : PhoneEvent → MyParse
  | .line text => (parse j text c).2
  | .opens mylist talkToWho => myPreInit mylist talkToWho c

/-- The number with an entry is that of its messages, as far as an `int` can tell. -/
def Item.Counted (x : Item) : Prop := x.messagesize = Int32.ofNat x.messages.length

/-- All entries are counted. -/
def MyParse.Counted (c : MyParse) : Prop := ∀ mylist, ∀ x ∈ c.get mylist, x.Counted

section Counting

variable {c : MyParse}

theorem counted_fresh : MyParse.Counted .fresh := by
  intro mylist x hx
  cases mylist with
  | userList | nodeList => exact absurd hx List.not_mem_nil

theorem counted_post (h : c.Counted) (m : Posted) : (c.post m).Counted := by
  intro mylist x hx
  refine h mylist x ?_
  cases mylist with
  | userList | nodeList => exact hx

theorem counted_set (h : c.Counted) {mylist : MyList} {l : List Item} (hl : ∀ x ∈ l, x.Counted) :
    (c.set mylist l).Counted := by
  intro other x hx
  cases mylist with
  | userList =>
    cases other with
    | userList => exact hl x hx
    | nodeList => exact h .nodeList x hx
  | nodeList =>
    cases other with
    | userList => exact h .userList x hx
    | nodeList => exact hl x hx

theorem counted_info (h : c.Counted) (mylist : MyList) (parentname : Str) (name : Option Str) (message : Str) :
    (userOrNodeinfoparse mylist parentname name message c).Counted := by
  refine counted_post (counted_set h ?_) _
  split
  · exact forall_modifyFirst (h mylist) fun x _ hx => hx
  · intro x hx
    rcases List.mem_append.1 hx with hx | hx
    · exact h mylist x hx
    · rw [List.mem_singleton.1 hx]
      rfl

theorem counted_push {x : Item} (h : x.Counted) (message : Str) : (x.push message).Counted := by
  show x.messagesize + 1 = Int32.ofNat (x.messages ++ [message]).length
  rw [List.length_append, Int32.ofNat_add, h]
  rfl

/-- A message and its number. -/
theorem counted_chatparse (h : c.Counted) (mylist : MyList) (parentname : Str) (name : Option Str) (message : Str) :
    (chatparse mylist parentname name message c).Counted := by
  have hinfo := counted_info h mylist parentname name "on".toList
  refine counted_post (counted_set hinfo ?_) _
  exact forall_modifyFirst (hinfo mylist) fun x _ hx => counted_push hx message

theorem counted_onlyUpdateNodeState (h : c.Counted) (mylist : MyList) (parentname message : Str) :
    (onlyUpdateNodeState j mylist parentname message c).Counted := by
  unfold onlyUpdateNodeState
  split
  · exact h
  · generalize (c.get mylist).filter _ = items
    induction items generalizing c with
    | nil => exact h
    | cons x items ih => exact ih (counted_info h mylist parentname x.name message)

theorem counted_loginparse (h : c.Counted) (protocolList : List Str) :
    (afterwards (loginparse protocolList c)).Counted := by
  unfold loginparse
  repeat' split
  · exact h
  · exact counted_post h _
  · exact counted_post (counted_post h _) _
  · exact h
  · exact counted_post h _
  · exact h

theorem counted_parseParts (h : c.Counted) (parentname : Str) (parts : List Str) :
    (afterwards (parseParts parentname parts c)).Counted := by
  induction parts generalizing c with
  | nil => exact h
  | cons part parts ih =>
    unfold parseParts
    split
    · exact h
    · exact ih (counted_chatparse h .nodeList parentname _ _)

theorem counted_dispatch (h : c.Counted) (line name messages : Str) :
    (afterwards (dispatch j line name messages c)).Counted := by
  unfold dispatch
  repeat' split
  · exact counted_info h .userList name (some name) messages
  · exact counted_onlyUpdateNodeState h .nodeList name messages
  · exact counted_chatparse h .userList name (some name) messages
  · exact counted_parseParts h name _
  · exact h

/-- A step of the phone. -/
theorem counted_next (h : c.Counted) (e : PhoneEvent) : (phoneNext j c e).Counted := by
  cases e with
  | line text =>
    show (parse j text c).2.Counted
    rw [parse_snd]
    unfold parseLine
    simp only
    repeat' split
    · exact h
    · exact counted_loginparse h _
    · exact counted_dispatch h text _ _
    · exact h
  | opens mylist talkToWho => exact counted_set h (forall_modifyFirst (h mylist) fun x _ _ => rfl)

/-- **In every run, the number with an entry is that of its messages.** -/
theorem counted_run (h : Reaches (fun c e => some (phoneNext j c e)) (fun _ _ => True) .fresh c) : c.Counted := by
  refine h.invariant MyParse.Counted counted_fresh fun d e d' hd _ hstep => ?_
  cases hstep
  exact counted_next hd e

end Counting

/-! ## 6. Together -/

/-- **Reports are filed whatever was recorded before exactly if the line is `Named`, and in every run the number with
    an entry is that of its messages.** -/
theorem filed_iff (j : Platform) :
    (∀ l : ReportLine j, (∀ c, Filed l c (parse j l.line c).2) ↔ Named l) ∧
      ∀ c, Reaches (fun c e => some (phoneNext j c e)) (fun _ _ => True) .fresh c → ∀ mylist, ∀ x ∈ c.get mylist,
        x.messages.length < 2 ^ 31 → x.messagesize.toInt = x.messages.length := by
  refine ⟨fun l => ⟨fun h => named_of_filed (h .fresh), filed_of_named⟩, fun c hc mylist x hx hlen => ?_⟩
  rw [counted_run hc mylist x hx, Int32.toInt_ofNat_of_lt hlen]

/-- A report of printed characters. -/
def printedReport (j : Platform) (name payload : Str) (h : Graphic (name ++ payload)) (hpayload : payload ≠ [])
    (hsemicolon : ';' ∉ name ++ payload) (hname : ',' ∉ name ∧ '=' ∉ name) : DeviceReport j :=
  ⟨name, payload, hpayload, h.plain.noSpace, hsemicolon, hname.1, hname.2⟩

/-- A report without a name, and one of a television. -/
def unnamedLine (j : Platform) : ReportLine j where
  parent := "light".toList
  reports := [printedReport j [] "on".toList (by decide) (by decide) (by decide) (by decide),
    printedReport j "tv".toList "off".toList (by decide) (by decide) (by decide) (by decide)]
  parent_noSpace := Graphic.plain (by decide) |>.noSpace
  reports_ne := List.cons_ne_nil _ _

/-- **Behind a report without a name, the television is lost too.** -/
theorem unnamed_lost : (unnamedLine latin1).line = "node ok light name=,on;name=tv,off".toList ∧
    (parse latin1 (unnamedLine latin1).line .fresh).2 = .fresh ∧
    ¬ Filed (unnamedLine latin1) .fresh (parse latin1 (unnamedLine latin1).line .fresh).2 := by
  have hparent : "light".toList ≠ [] := by decide
  have hlost : (parse latin1 (unnamedLine latin1).line .fresh).2 = .fresh :=
    parse_line (unnamedLine latin1) hparent .fresh
  refine ⟨rfl, hlost, fun h => ?_⟩
  obtain ⟨x, hx, -⟩ := h.reported _ List.mem_cons_self
  rw [hlost] at hx
  cases hx

end SmartHome.Android
