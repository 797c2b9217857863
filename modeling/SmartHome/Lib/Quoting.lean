/-
  Subject:   QUOTED LITERALS: a lexer for them, and texts made from a template. Nothing here names a program.

  Between two quotes stands a literal. Inside, two quotes are one, and after the escape character the next
  one stands for something else, or, for a few of them, both stand for themselves. Who puts an argument
  between two quotes of a template gets it back from the lexer if it is plain: it has no quote, and an
  escape character only before a character that lets it stand. The converse holds too, whatever follows:
  each pair that is read as one character is one character and one special character less, so what is read
  beyond the closing quote would have to be special characters throughout.

  * `Rules` -- the characters that matter; `lexFrom`, `lex` -- the lexer, a machine that reads character by
    character;
  * `Reads` -- a body and its value; `lexFrom_reads`, `lexFrom_literal` -- the lexer reads it so;
  * `plain`, **`lexFrom_argument`** -- an argument between quotes is read as itself exactly if it is plain;
  * `Item`, `render`, `template`, **`lexFrom_render`** -- the same for a whole template; `length_render` -- how
    long the text is.
-/
import Mathlib.Algebra.GroupWithZero.Nat
import Mathlib.Data.List.Basic

namespace SmartHome.Lib

/-! ## 1. The lexer -/

/-- What the lexer has to know. An escaped character is kept with the escape character, or is one
    character, special exactly if it was. -/
structure Rules (α : Type) where
  quote : α
  escape : α
  isSpace : α → Bool
  isWord : α → Bool
  unescape : α → List α
  ne : quote ≠ escape
  unescaped : ∀ c, unescape c = [escape, c] ∧ c ≠ quote ∧ c ≠ escape ∨
    ∃ d, unescape c = [d] ∧ (d = quote ∨ d = escape ↔ c = quote ∨ c = escape)

/-- Tokens. -/
inductive Token (α : Type) where
  | word (s : List α)
  | symbol (c : α)
  | literal (s : List α)
  deriving DecidableEq, Repr

/-- Where the lexer is; in `quoted` it has read a quote that ends the literal or is the first of two. -/
inductive Mode (α : Type) where
  | between
  | word (s : List α)
  | literal (s : List α)
  | escaped (s : List α)
  | quoted (s : List α)
  deriving DecidableEq, Repr

section Lexer

variable {α : Type} [DecidableEq α] (R : Rules α)

/-- A character that is not part of the token before it. -/
def Rules.start (c : α) : List (Token α) × Mode α :=
  if c = R.quote then ([], .literal [])
  else if R.isSpace c then ([], .between)
  else if R.isWord c then ([], .word [c])
  else ([.symbol c], .between)

/-- A character. -/
def Rules.step : Mode α → α → List (Token α) × Mode α
  | .between, c => R.start c
  | .word s, c => if R.isWord c then ([], .word (s ++ [c])) else (.word s :: (R.start c).1, (R.start c).2)
  | .literal s, c =>
    if c = R.quote then ([], .quoted s)
    else if c = R.escape then ([], .escaped s)
    else ([], .literal (s ++ [c]))
  | .escaped s, c => ([], .literal (s ++ R.unescape c))
  | .quoted s, c =>
    if c = R.quote then ([], .literal (s ++ [c])) else (.literal s :: (R.start c).1, (R.start c).2)

/-- The end of the text; a literal has to be closed. -/
def Mode.finish : Mode α → Option (List (Token α))
  | .between => some []
  | .word s => some [.word s]
  | .literal _ => none
  | .escaped _ => none
  | .quoted s => some [.literal s]

/-- The tokens of the rest of a text. -/
def Rules.lexFrom : Mode α → List α → Option (List (Token α))
  | m, [] => m.finish
  | m, c :: s => (Rules.lexFrom (R.step m c).2 s).map fun ts => (R.step m c).1 ++ ts

/-- The tokens of a text. -/
def Rules.lex (s : List α) : Option (List (Token α)) := R.lexFrom .between s

/-- A character that makes no token. -/
theorem lexFrom_silent {m m' : Mode α} {c : α} (h : R.step m c = ([], m')) (s : List α) :
    R.lexFrom m (c :: s) = R.lexFrom m' s := by
  show (R.lexFrom (R.step m c).2 s).map _ = _
  rw [h]
  exact Option.map_id'

/-! ## 2. Bodies of literals -/

/-- A body, and the value it is read as. -/
inductive Rules.Reads : List α → List α → Prop where
  | nil : Reads [] []
  | char {c : α} {w v : List α} (hq : c ≠ R.quote) (he : c ≠ R.escape) (h : Reads w v) : Reads (c :: w) (c :: v)
  | quotes {w v : List α} (h : Reads w v) : Reads (R.quote :: R.quote :: w) (R.quote :: v)
  | escaped {c : α} {w v : List α} (h : Reads w v) : Reads (R.escape :: c :: w) (R.unescape c ++ v)

variable {R}

theorem lexFrom_quote (acc s : List α) : R.lexFrom (.literal acc) (R.quote :: s) = R.lexFrom (.quoted acc) s := by
  refine lexFrom_silent R ?_ s
  simp only [Rules.step, if_true]

theorem lexFrom_second (acc s : List α) :
    R.lexFrom (.quoted acc) (R.quote :: s) = R.lexFrom (.literal (acc ++ [R.quote])) s := by
  refine lexFrom_silent R ?_ s
  simp only [Rules.step, if_true]

theorem lexFrom_escape (acc s : List α) :
    R.lexFrom (.literal acc) (R.escape :: s) = R.lexFrom (.escaped acc) s := by
  refine lexFrom_silent R ?_ s
  simp only [Rules.step, if_neg R.ne.symm, if_true]

theorem lexFrom_escaped (acc : List α) (c : α) (s : List α) :
    R.lexFrom (.escaped acc) (c :: s) = R.lexFrom (.literal (acc ++ R.unescape c)) s :=
  lexFrom_silent R rfl s

theorem lexFrom_char {c : α} (hq : c ≠ R.quote) (he : c ≠ R.escape) (acc s : List α) :
    R.lexFrom (.literal acc) (c :: s) = R.lexFrom (.literal (acc ++ [c])) s := by
  refine lexFrom_silent R ?_ s
  simp only [Rules.step, if_neg hq, if_neg he]

/-- **A body is read as its value**, whatever follows. -/
theorem lexFrom_reads {w v : List α} (h : R.Reads w v) (acc s : List α) :
    R.lexFrom (.literal acc) (w ++ s) = R.lexFrom (.literal (acc ++ v)) s := by
  induction h generalizing acc with
  | nil => rw [List.append_nil, List.nil_append]
  | char hq he _ ih => rw [List.cons_append, lexFrom_char hq he, ih, List.append_assoc, List.singleton_append]
  | quotes _ ih =>
    rw [List.cons_append, List.cons_append, lexFrom_quote, lexFrom_second, ih, List.append_assoc,
      List.singleton_append]
  | escaped _ ih =>
    rw [List.cons_append, List.cons_append, lexFrom_escape, lexFrom_escaped, ih, List.append_assoc]

/-- The quote that ends a literal. -/
theorem lexFrom_close {acc s : List α} (h : s.head? ≠ some R.quote) :
    R.lexFrom (.quoted acc) s = (R.lexFrom .between s).map fun ts => .literal acc :: ts := by
  cases s with
  | nil => rfl
  | cons c s =>
    have hc : c ≠ R.quote := fun heq => h (congrArg some heq)
    have hstep : R.step (.quoted acc) c = (.literal acc :: (R.start c).1, (R.start c).2) := by
      simp only [Rules.step, if_neg hc]
    show (R.lexFrom (R.step (.quoted acc) c).2 s).map _ = ((R.lexFrom (R.start c).2 s).map _).map _
    rw [hstep, Option.map_map]
    rfl

/-- **What the lexer reads as a literal is a body**, up to a quote that no other one follows. -/
theorem lexFrom_literal {s acc : List α} {ts : List (Token α)} (h : R.lexFrom (.literal acc) s = some ts) :
    ∃ w v rest ts', s = w ++ R.quote :: rest ∧ R.Reads w v ∧ ts = .literal (acc ++ v) :: ts' ∧
      R.lexFrom .between rest = some ts' := by
  -- on the length, since a pair of characters is read at once
  induction hn : s.length using Nat.strongRecOn generalizing s acc with
  | ind n ih =>
    subst hn
    cases s with
    | nil => exact absurd h (Option.some_ne_none _).symm
    | cons c s =>
      by_cases hq : c = R.quote
      · subst hq
        rw [lexFrom_quote] at h
        by_cases hhead : s.head? = some R.quote
        · obtain ⟨s, rfl⟩ := List.head?_eq_some_iff.mp hhead
          rw [lexFrom_second] at h
          obtain ⟨w, v, rest, ts', rfl, hw, hts, hrest⟩ :=
            ih s.length (by simp only [List.length_cons]; omega) h rfl
          refine ⟨_, _, rest, ts', rfl, .quotes hw, ?_, hrest⟩
          rw [hts, List.append_assoc]
          rfl
        · rw [lexFrom_close hhead] at h
          obtain ⟨ts', hts', rfl⟩ := Option.map_eq_some_iff.mp h
          refine ⟨[], [], s, ts', rfl, .nil, ?_, hts'⟩
          rw [List.append_nil]
      · by_cases he : c = R.escape
        · subst he
          rw [lexFrom_escape] at h
          cases s with
          | nil => exact absurd h (Option.some_ne_none _).symm
          | cons d s =>
            rw [lexFrom_escaped] at h
            obtain ⟨w, v, rest, ts', rfl, hw, hts, hrest⟩ :=
              ih s.length (by simp only [List.length_cons]; omega) h rfl
            refine ⟨_, _, rest, ts', rfl, .escaped hw, ?_, hrest⟩
            rw [hts, List.append_assoc]
        · rw [lexFrom_char hq he] at h
          obtain ⟨w, v, rest, ts', rfl, hw, hts, hrest⟩ := ih s.length (Nat.lt_succ_self _) h rfl
          refine ⟨_, _, rest, ts', rfl, .char hq he hw, ?_, hrest⟩
          rw [hts, List.append_assoc]
          rfl

/-! ## 3. Plain arguments -/

variable (R) in
/-- No quote, and an escape character only before a character that lets it stand. -/
def Rules.plain : List α → Bool
  | [] => true
  | [c] => c ≠ R.quote && c ≠ R.escape
  | c :: d :: s =>
    if c = R.escape then R.unescape d = [R.escape, d] && plain s else c ≠ R.quote && plain (d :: s)

variable (R) in
/-- A quote or an escape character. -/
def Rules.special (c : α) : Bool := c = R.quote || c = R.escape

theorem reads_plain : ∀ {s : List α}, R.plain s = true → R.Reads s s
  | [], _ => .nil
  | [c], h => by
    unfold Rules.plain at h
    rw [Bool.and_eq_true, decide_eq_true_iff, decide_eq_true_iff] at h
    exact .char h.1 h.2 .nil
  | c :: d :: s, h => by
    unfold Rules.plain at h
    by_cases he : c = R.escape
    · subst he
      rw [if_pos rfl, Bool.and_eq_true, decide_eq_true_iff] at h
      have hread := (reads_plain h.2).escaped (c := d)
      rw [h.1] at hread
      exact hread
    · rw [if_neg he, Bool.and_eq_true, decide_eq_true_iff] at h
      exact .char h.1 he (reads_plain h.2)

theorem special_iff {c : α} : R.special c = true ↔ c = R.quote ∨ c = R.escape := by
  unfold Rules.special
  rw [Bool.or_eq_true, decide_eq_true_iff, decide_eq_true_iff]

theorem countP_special_cons {c d : α} (h : c = R.quote ∨ c = R.escape ↔ d = R.quote ∨ d = R.escape) (s t : List α) :
    (c :: s).countP R.special + t.countP R.special = s.countP R.special + (d :: t).countP R.special := by
  rw [List.countP_cons, List.countP_cons, show R.special c = R.special d from ?_]
  · omega
  · rw [Bool.eq_iff_iff, special_iff, special_iff]
    exact h

/-- **What reading loses**: every pair that is read as one character is one character less and one special
    character less; where there is none, the body is plain. -/
theorem Rules.Reads.lost {w v : List α} (h : R.Reads w v) :
    ∃ k, w.length = v.length + k ∧ w.countP R.special = v.countP R.special + k ∧ (k = 0 → R.plain w = true) := by
  induction h with
  | nil => exact ⟨0, rfl, rfl, fun _ => rfl⟩
  | @char c w v hq he _ ih =>
    obtain ⟨k, hlength, hcount, hplain⟩ := ih
    refine ⟨k, by rw [List.length_cons, List.length_cons, hlength]; omega, ?_, fun hk => ?_⟩
    · rw [List.countP_cons, List.countP_cons, hcount]
      omega
    · match w, hplain hk with
      | [], _ =>
        unfold Rules.plain
        rw [Bool.and_eq_true, decide_eq_true_iff, decide_eq_true_iff]
        exact ⟨hq, he⟩
      | d :: w, hw =>
        unfold Rules.plain
        rw [if_neg he, Bool.and_eq_true, decide_eq_true_iff]
        exact ⟨hq, hw⟩
  | quotes _ ih =>
    obtain ⟨k, hlength, hcount, _⟩ := ih
    have hspecial : R.special R.quote = true := special_iff.mpr (Or.inl rfl)
    refine ⟨k + 1, ?_, ?_, fun hk => absurd hk (Nat.succ_ne_zero k)⟩
    · rw [List.length_cons, List.length_cons, List.length_cons, hlength]
      omega
    · rw [List.countP_cons_of_pos hspecial, List.countP_cons_of_pos hspecial, List.countP_cons_of_pos hspecial,
        hcount]
      omega
  | @escaped c w v _ ih =>
    obtain ⟨k, hlength, hcount, hplain⟩ := ih
    have hspecial : R.special R.escape = true := special_iff.mpr (Or.inr rfl)
    rcases R.unescaped c with ⟨hkept, _, _⟩ | ⟨d, hone, hd⟩
    · refine ⟨k, ?_, ?_, fun hk => ?_⟩
      · rw [hkept, List.length_cons, List.length_cons, hlength, List.length_append]
        simp only [List.length_cons, List.length_nil]
        omega
      · rw [hkept, List.countP_append, List.countP_cons_of_pos hspecial, List.countP_cons_of_pos hspecial]
        simp only [List.countP_cons, List.countP_nil]
        omega
      · unfold Rules.plain
        rw [if_pos rfl, Bool.and_eq_true, decide_eq_true_iff]
        exact ⟨hkept, hplain hk⟩
    · refine ⟨k + 1, ?_, ?_, fun hk => absurd hk (Nat.succ_ne_zero k)⟩
      · rw [hone, List.length_cons, List.length_cons, hlength, List.length_append, List.length_singleton]
        omega
      · have hcons := countP_special_cons hd v w
        rw [hone, List.singleton_append, List.countP_cons_of_pos hspecial]
        omega

/-- **An argument between two quotes is read as itself exactly if it is plain**, where what follows the
    second quote does not begin with a special character. -/
theorem lexFrom_argument {a s : List α} {ts : List (Token α)} (hs : ∀ c ∈ s.head?, R.special c = false) :
    R.lexFrom (.literal []) (a ++ R.quote :: s) = some (.literal a :: ts) ↔
      R.plain a = true ∧ R.lexFrom .between s = some ts := by
  have hquote : s.head? ≠ some R.quote := by
    intro hhead
    have hno := hs R.quote hhead
    rw [special_iff.mpr (Or.inl rfl)] at hno
    exact Bool.noConfusion hno
  have hread : R.Reads a a → R.lexFrom (.literal []) (a ++ R.quote :: s) =
      (R.lexFrom .between s).map fun ts => .literal a :: ts := by
    intro ha
    rw [lexFrom_reads ha, List.nil_append, lexFrom_quote, lexFrom_close hquote]
  constructor
  · intro h
    obtain ⟨w, v, rest, ts', hsplit, hw, hts, -⟩ := lexFrom_literal h
    obtain ⟨hav, -⟩ := List.cons.inj hts
    have hav : a = v := Token.literal.inj hav
    subst hav
    obtain ⟨k, hlength, hcount, hplain⟩ := hw.lost
    have hwa : w = a := by
      rcases List.append_eq_append_iff.mp hsplit with ⟨x, rfl, hx⟩ | ⟨x, rfl, -⟩
      · -- a body that goes on beyond the argument: all that it has more is special
        rw [List.length_append] at hlength
        rw [List.countP_append] at hcount
        have hall : ∀ c ∈ x, R.special c = true := List.countP_eq_length.mp (by omega)
        match x, hx with
        | [], _ => exact List.append_nil a
        | c :: x, hx =>
          obtain ⟨-, rfl⟩ := List.cons.inj hx
          match x with
          | [] => exact absurd rfl hquote
          | d :: x =>
            have hd := hall d (List.mem_cons_of_mem c List.mem_cons_self)
            rw [hs d rfl] at hd
            exact Bool.noConfusion hd
      · -- it cannot end before the argument, being no shorter than its value
        rw [List.length_append] at hlength
        have hx : x = [] := List.eq_nil_of_length_eq_zero (by omega)
        rw [hx, List.append_nil]
    rw [hwa] at hplain hlength
    have hk : k = 0 := by omega
    refine ⟨hplain hk, ?_⟩
    rw [hread (reads_plain (hplain hk))] at h
    obtain ⟨ts', hts', he⟩ := Option.map_eq_some_iff.mp h
    rw [hts', (List.cons.inj he).2]
  · rintro ⟨ha, hts⟩
    rw [hread (reads_plain ha), hts]
    rfl

end Lexer

/-! ## 4. Templates -/

/-- A character of a template, or a hole. -/
inductive Item (α : Type) where
  | char (c : α)
  | hole
  deriving DecidableEq, Repr

/-- The text: the arguments stand in the holes. -/
def render {α : Type} : List (Item α) → List (List α) → List α
  | [], _ => []
  | .char c :: f, args => c :: render f args
  | .hole :: f, a :: args => a ++ render f args
  | .hole :: f, [] => render f []

/-- How many arguments it takes. -/
def holes {α : Type} : List (Item α) → Nat
  | [] => 0
  | .char _ :: f => holes f
  | .hole :: f => holes f + 1

/-- How many characters it has itself. -/
def chars {α : Type} : List (Item α) → Nat
  | [] => 0
  | .char _ :: f => chars f + 1
  | .hole :: f => chars f

/-- **The length of the text**: its own characters and the arguments. -/
theorem length_render {α : Type} (f : List (Item α)) {args : List (List α)} (h : args.length = holes f) :
    (render f args).length = chars f + (args.map List.length).sum := by
  induction f generalizing args with
  | nil =>
    rw [List.eq_nil_of_length_eq_zero h]
    rfl
  | cons i f ih =>
    cases i with
    | char c =>
      rw [render, chars, List.length_cons, ih h]
      omega
    | hole =>
      match args, h with
      | a :: args, h =>
        rw [render, chars, List.length_append, ih (Nat.succ.inj h), List.map_cons, List.sum_cons]
        omega

section Template

variable {α : Type} [DecidableEq α] (R : Rules α)

/-- **The tokens of a template**: a hole between two quotes is a literal, and its value is the argument. -/
def Rules.template : Mode α → List (Item α) → List (List α) → Option (List (Token α))
  | m, [], _ => m.finish
  | m, .char c :: f, args => (Rules.template (R.step m c).2 f args).map fun ts => (R.step m c).1 ++ ts
  | .literal [], .hole :: .char c :: f, a :: args =>
    if c = R.quote then (Rules.template .between f args).map fun ts => .literal a :: ts else none
  | _, .hole :: _, _ => none

/-- What follows the quote behind a hole. -/
def Rules.harmless : List (Item α) → Bool
  | [] => true
  | .char c :: _ => !R.special c
  | .hole :: _ => false

/-- Every hole stands between two quotes, no special character follows, and every literal is closed. -/
def Rules.wellQuoted : Mode α → List (Item α) → Bool
  | m, [] => m.finish.isSome
  | m, .char c :: f => Rules.wellQuoted (R.step m c).2 f
  | m, .hole :: .char c :: f => m = .literal [] && c = R.quote && R.harmless f && Rules.wellQuoted .between f
  | _, .hole :: _ => false

/-- The argument of a hole. -/
theorem wellQuoted_hole {m : Mode α} {f : List (Item α)} (h : R.wellQuoted m (.hole :: f) = true) :
    ∃ f', m = .literal [] ∧ f = .char R.quote :: f' ∧ R.harmless f' = true ∧ R.wellQuoted .between f' = true := by
  match f, h with
  | .char c :: f, h =>
    unfold Rules.wellQuoted at h
    simp only [Bool.and_eq_true, decide_eq_true_eq] at h
    obtain ⟨⟨⟨rfl, rfl⟩, hharmless⟩, hwell⟩ := h
    exact ⟨f, rfl, rfl, hharmless, hwell⟩

/-- What follows the quote behind a hole, in the text. -/
theorem harmless_render {f : List (Item α)} (h : R.harmless f = true) (args : List (List α)) :
    ∀ c ∈ (render f args).head?, R.special c = false := by
  match f, h with
  | [], _ => exact fun c hc => absurd hc (Option.not_mem_none c)
  | .char d :: f, h =>
    intro c hc
    obtain rfl := Option.mem_some_iff.mp hc
    exact (Bool.not_eq_true' _).mp h

/-- **A text made from a template has the tokens of the template exactly if its arguments are plain.** -/
theorem lexFrom_render {m : Mode α} {f : List (Item α)} {args : List (List α)} (hargs : args.length = holes f)
    (h : R.wellQuoted m f = true) :
    (∃ ts, R.template m f args = some ts) ∧
      (R.lexFrom m (render f args) = R.template m f args ↔ ∀ a ∈ args, R.plain a = true) := by
  induction hn : f.length using Nat.strongRecOn generalizing m f args with
  | ind n ih =>
    subst hn
    match f, args, hargs, h with
    | [], [], _, h =>
      obtain ⟨ts, hts⟩ := Option.isSome_iff_exists.mp h
      exact ⟨⟨ts, hts⟩, fun _ a ha => absurd ha List.not_mem_nil, fun _ => rfl⟩
    | .char c :: f, args, hargs, h =>
      have hf : args.length = holes f := hargs
      obtain ⟨⟨ts, hts⟩, hiff⟩ := ih f.length (Nat.lt_succ_self _) hf h rfl
      have htemplate : R.template m (.char c :: f) args =
          (R.template (R.step m c).2 f args).map fun ts => (R.step m c).1 ++ ts := by
        rw [Rules.template]
      refine ⟨⟨_, by rw [htemplate, hts]; rfl⟩, ?_⟩
      rw [← hiff, htemplate]
      exact (Option.map_injective fun _ _ he => List.append_cancel_left he).eq_iff
    | .hole :: f, a :: args, hargs, h =>
      obtain ⟨f, rfl, rfl, hharmless, hwell⟩ := wellQuoted_hole R h
      have hf : args.length = holes f := Nat.succ.inj hargs
      obtain ⟨⟨ts, hts⟩, hiff⟩ := ih f.length (by simp only [List.length_cons]; omega) hf hwell rfl
      have htemplate : R.template (.literal []) (.hole :: .char R.quote :: f) (a :: args) =
          some (.literal a :: ts) := by
        unfold Rules.template
        rw [if_pos rfl, hts]
        rfl
      refine ⟨⟨_, htemplate⟩, ?_⟩
      rw [htemplate, List.forall_mem_cons, ← hiff, hts]
      exact lexFrom_argument (harmless_render R hharmless args)

end Template

end SmartHome.Lib
