/-
  Subject:   LOGIN COOKIES (`authcode` of common.func.php, `onlogin` of member.php).

  One body encodes and decodes: a header of ten digits, sixteen characters of a checksum and the text, under
  RC4 with a key made of ENKEY and of four characters that stand in front of the result. The body works on
  `$string`. The parameter is called `$str`, and nothing else sets `$string` before it is read. So it is the
  empty text that is encoded, whatever was given, and the empty text that is decoded.

  * `Php` -- the functions of PHP the body calls, with what is known of them;
  * `keySchedule`, `stir`, `crypt` -- RC4 as the loops do it; `crypt_crypt` -- twice is nothing;
  * `authcodeBody`, `authcode`, `loginCookie` -- the source;
  * `authcodeBody_inverse` -- the body would decode what it encodes, if it were given the text;
  * **`authcode_inverse_iff`** -- as it is, the empty text comes back and no other, and all cookies decode to
    the same; `authcode_user1` -- the cookie of an administrator.
-/
import Mathlib.Data.List.Basic
import Mathlib.Data.UInt

namespace SmartHome.ClientWeb

/-- A text of PHP. -/
abbrev Text := List UInt8

/-! ## 1. What PHP brings -/

/-- `0` to `9` and `a` to `f`. -/
def IsHexChar (c : UInt8) : Prop := (48 ≤ c ∧ c ≤ 57) ∨ (97 ≤ c ∧ c ≤ 102)

/-- What `md5` gives: 32 hexadecimal characters. -/
def Digest := { t : Text // t.length = 32 ∧ ∀ c ∈ t, IsHexChar c }

/-- `=`. -/
def padChar : UInt8 := 61

/-- The functions of PHP 5 that `authcode` calls. `numericEq`, `isZero` and `exceeds` are about texts that read
    as numbers: `==` between two of them, `== 0`, and `- time() > 0`. -/
structure Php where
  md5 : Text → Digest
  base64Encode : Text → Text
  base64Decode : Text → Text
  numericEq : Text → Text → Bool
  isZero : Text → Bool
  exceeds : Text → Nat → Bool
  decode_unpadded : ∀ t, base64Decode ((base64Encode t).filter (· ≠ padChar)) = t
  decode_empty : base64Decode [] = []
  -- the empty text is not a number
  numericEq_empty : ∀ t, numericEq [] t = false
  isZero_zeros : isZero (List.replicate 10 48) = true

/-- `==` between texts: the same, or both numbers and those are the same. -/
def Php.looseEq (P : Php) (s t : Text) : Bool := s == t || P.numericEq s t

theorem looseEq_self (P : Php) (t : Text) : P.looseEq t t = true := by
  unfold Php.looseEq
  rw [beq_self_eq_true, Bool.true_or]

theorem looseEq_empty (P : Php) {t : Text} (h : t ≠ []) : P.looseEq [] t = false := by
  unfold Php.looseEq
  rw [P.numericEq_empty, Bool.or_false, beq_eq_false_iff_ne]
  exact h.symm

theorem length_md5 (P : Php) (t : Text) : (P.md5 t).1.length = 32 := (P.md5 t).2.1

/-- `microtime()` and `time()` at a call. -/
structure Now where
  microtime : Text
  time : Nat

/-! ## 2. RC4 -/

/-- `$box`. -/
abbrev Box := Vector UInt8 256

/-- `$box[$i]`. The index is a sum `%256`. -/
def Box.at (box : Box) (i : UInt8) : UInt8 := box.get ⟨i.toNat, UInt8.toNat_lt i⟩

/-- `$box[$i]=$x`. -/
def Box.put (box : Box) (i x : UInt8) : Box := box.set i.toNat x (UInt8.toNat_lt i)

/-- The exchange of two places through `$tmp`. -/
def Box.swap (box : Box) (i j : UInt8) : Box := (box.put i (box.at j)).put j (box.at i)

/-- `range(0,255)`. -/
def Box.range : Box := Vector.ofFn fun i => i.val.toUInt8

/-- One round of the second loop; `$rndkey[$i]` is what the first one put there. -/
def scheduleRound (cryptkey : Text) (p : UInt8 × Box) (i : Nat) : UInt8 × Box :=
  let rndkey := cryptkey.getD (i % cryptkey.length) 0
  let j := p.1 + p.2.at i.toUInt8 + rndkey
  (j, p.2.swap i.toUInt8 j)

/-- The box for a key. -/
def keySchedule (cryptkey : Text) : Box := ((List.range 256).foldl (scheduleRound cryptkey) (0, Box.range)).2

/-- `$a`, `$j` and `$box` of the third loop. -/
structure Stream where
  a : UInt8
  j : UInt8
  box : Box

/-- A round of the third loop without the text: the byte to combine with, and the variables after it. -/
def stir (s : Stream) : UInt8 × Stream :=
  let a := s.a + 1
  let j := s.j + s.box.at a
  let box := s.box.swap a j
  (box.at (box.at a + box.at j), ⟨a, j, box⟩)

/-- The third loop, over the rest of `$string`; what it appends to `$result`. -/
def cryptLoop : Stream → Text → Text
  | _, [] => []
  | s, c :: string => (c ^^^ (stir s).1) :: cryptLoop (stir s).2 string

/-- All three loops. -/
def crypt (cryptkey string : Text) : Text := cryptLoop ⟨0, 0, keySchedule cryptkey⟩ string

/-- The bytes to combine with do not depend on the text. -/
theorem cryptLoop_cryptLoop (string : Text) (s : Stream) : cryptLoop s (cryptLoop s string) = string := by
  induction string generalizing s with
  | nil => rfl
  | cons c string ih =>
    rw [cryptLoop, cryptLoop, ih, UInt8.xor_assoc, UInt8.xor_self, UInt8.xor_zero]

/-- **RC4 under the same key twice is nothing.** -/
theorem crypt_crypt (cryptkey string : Text) : crypt cryptkey (crypt cryptkey string) = string :=
  cryptLoop_cryptLoop string _

/-! ## 3. common.func.php and member.php -/

/-- `$option`. Whatever is not `'DECODE'` encodes. -/
inductive Coding where
  | encode
  | decode
  deriving DecidableEq, Repr

/-- The variables `$string` and `$expiry` when the body begins; one that nothing has set reads as NULL. -/
structure Scope where
  string : Option Text
  expiry : Option Nat

/-- NULL where a text is wanted. -/
def Scope.text (v : Scope) : Text := v.string.getD []

/-- `sprintf('%010d',$n)`. -/
def sprintf010d (n : Nat) : Text := List.leftpad 10 48 ((Nat.toDigits 10 n).map fun c => c.toNat.toUInt8)

/-- `$expiry?$expiry+time():0`. -/
def Scope.until (v : Scope) (now : Now) : Nat :=
  match v.expiry with
  | some expiry => if expiry = 0 then 0 else expiry + now.time
  | none => 0

/-- `$keya`. -/
def keya (P : Php) (enkey : Text) : Text := (P.md5 ((P.md5 enkey).1.take 16)).1

/-- `$keyb`. -/
def keyb (P : Php) (enkey : Text) : Text := (P.md5 (((P.md5 enkey).1.drop 16).take 16)).1

/-- `$keyc`: the first `$ckey_length` characters when decoding, else the last of a digest. -/
def keyc (P : Php) (now : Now) (v : Scope) : Coding → Text
  | .decode => v.text.take 4
  | .encode => (P.md5 now.microtime).1.drop 28

/-- `$cryptkey`. -/
def cryptkey (P : Php) (enkey keyc : Text) : Text := keya P enkey ++ (P.md5 (keya P enkey ++ keyc)).1

/-- `$string` as it goes into the loops. -/
def framed (P : Php) (enkey : Text) (now : Now) (v : Scope) : Coding → Text
  | .decode => P.base64Decode (v.text.drop 4)
  | .encode => sprintf010d (v.until now) ++ (P.md5 (v.text ++ keyb P enkey)).1.take 16 ++ v.text

/-- What is returned for `$result`. -/
def unframed (P : Php) (enkey : Text) (now : Now) (keyc result : Text) : Coding → Text
  | .decode =>
    if (P.isZero (result.take 10) || P.exceeds (result.take 10) now.time) &&
        P.looseEq ((result.drop 10).take 16) ((P.md5 (result.drop 26 ++ keyb P enkey)).1.take 16) then
      result.drop 26
    else []
  | .encode => keyc ++ (P.base64Encode result).filter (· ≠ padChar)

/-- The body of `authcode`. -/
def authcodeBody (P : Php) (enkey : Text) (now : Now) (v : Scope) (option : Coding) : Text :=
  let keyc := keyc P now v option
  let result := crypt (cryptkey P enkey keyc) (framed P enkey now v option)
  unframed P enkey now keyc result option

/-- `authcode($str,$option)`: neither `$string` nor `$expiry` is a parameter. -/
def authcode (P : Php) (enkey : Text) (now : Now) (_str : Text) (option : Coding) : Text :=
  authcodeBody P enkey now ⟨none, none⟩ option

/-- The cookie `onlogin` sets. -/
def loginCookie (P : Php) (enkey : Text) (now : Now) (userid isAdmin : Text) : Text :=
  authcode P enkey now (userid ++ [13] ++ isAdmin) .encode

/-! ## 4. The body on its own -/

section Body

variable (P : Php) (enkey : Text)

theorem length_keyc (now : Now) (v : Scope) : (keyc P now v .encode).length = 4 := by
  unfold keyc
  rw [List.length_drop, length_md5]

/-- A decoder reads the characters of the key where the encoder put them. -/
theorem keyc_coded {keyc : Text} (h : keyc.length = 4) (now : Now) (code : Text) (expiry : Option Nat) :
    ClientWeb.keyc P now ⟨some (keyc ++ code), expiry⟩ .decode = keyc :=
  List.take_left' h

theorem framed_coded {keyc : Text} (h : keyc.length = 4) (now : Now) (result : Text) (expiry : Option Nat) :
    framed P enkey now ⟨some (keyc ++ (P.base64Encode result).filter (· ≠ padChar)), expiry⟩ .decode = result := by
  have hdrop : (keyc ++ (P.base64Encode result).filter (· ≠ padChar)).drop 4 =
      (P.base64Encode result).filter (· ≠ padChar) := List.drop_left' h
  unfold framed Scope.text
  rw [Option.getD_some, hdrop, P.decode_unpadded]

/-- Header and checksum of the encoder satisfy the decoder. -/
theorem unframed_framed (now now' : Now) (s keyc : Text) :
    unframed P enkey now' keyc (framed P enkey now ⟨some s, none⟩ .encode) .decode = s := by
  have hzeros : sprintf010d 0 = List.replicate 10 48 := by decide
  have hsum : ((P.md5 (s ++ keyb P enkey)).1.take 16).length = 16 := by
    rw [List.length_take, length_md5]
    rfl
  have hframe : framed P enkey now ⟨some s, none⟩ .encode =
      List.replicate 10 48 ++ ((P.md5 (s ++ keyb P enkey)).1.take 16 ++ s) := by
    rw [← hzeros, ← List.append_assoc]
    rfl
  have htake : (framed P enkey now ⟨some s, none⟩ .encode).take 10 = List.replicate 10 48 := by
    rw [hframe]
    exact List.take_left' rfl
  have hdrop : (framed P enkey now ⟨some s, none⟩ .encode).drop 10 = (P.md5 (s ++ keyb P enkey)).1.take 16 ++ s := by
    rw [hframe]
    exact List.drop_left' rfl
  have hrest : (framed P enkey now ⟨some s, none⟩ .encode).drop 26 = s := by
    rw [show 26 = 10 + 16 from rfl, ← List.drop_drop, hdrop, List.drop_left' hsum]
  unfold unframed
  rw [hrest, htake, hdrop, List.take_left' hsum, P.isZero_zeros, looseEq_self]
  rfl

/-- **Given the text as `$string`, the body decodes what it encodes.** -/
theorem authcodeBody_inverse (now now' : Now) (s : Text) :
    authcodeBody P enkey now' ⟨some (authcodeBody P enkey now ⟨some s, none⟩ .encode), none⟩ .decode = s := by
  have h4 := length_keyc P now ⟨some s, none⟩
  have hcode : authcodeBody P enkey now ⟨some s, none⟩ .encode =
      keyc P now ⟨some s, none⟩ .encode ++ (P.base64Encode (crypt (cryptkey P enkey (keyc P now ⟨some s, none⟩ .encode))
        (framed P enkey now ⟨some s, none⟩ .encode))).filter (· ≠ padChar) := rfl
  rw [hcode]
  simp only [authcodeBody]
  rw [keyc_coded P h4, framed_coded P enkey h4, crypt_crypt, unframed_framed]

/-! ## 5. The body as it is called -/

/-- Nothing that is given to it is looked at. -/
theorem authcode_decode (now : Now) (str : Text) : authcode P enkey now str .decode = [] := by
  have hframed : framed P enkey now ⟨none, none⟩ .decode = [] := P.decode_empty
  have hsum : (P.md5 (List.drop 26 [] ++ keyb P enkey)).1.take 16 ≠ [] := by
    rw [← List.length_pos_iff, List.length_take, length_md5]
    decide
  unfold authcode authcodeBody
  simp only [hframed]
  unfold unframed
  rw [show crypt (cryptkey P enkey (keyc P now ⟨none, none⟩ .decode)) [] = [] from rfl,
    show (List.drop 10 ([] : Text)).take 16 = [] from rfl, looseEq_empty P hsum, Bool.and_false]
  rfl

/-- **Only the empty text comes back, and all cookies decode to the same.** -/
theorem authcode_inverse_iff (now now' : Now) (s : Text) :
    (authcode P enkey now' (authcode P enkey now s .encode) .decode = s ↔ s = []) ∧
      ∀ userid isAdmin userid' isAdmin' : Text,
        authcode P enkey now' (loginCookie P enkey now userid isAdmin) .decode =
          authcode P enkey now' (loginCookie P enkey now userid' isAdmin') .decode := by
  refine ⟨?_, fun _ _ _ _ => ?_⟩
  · rw [authcode_decode]
    exact eq_comm
  · rw [authcode_decode, authcode_decode]

end Body

/-- Two letters for a byte. -/
def letters (c : UInt8) : Text := [65 + c / 16, 65 + c % 16]

/-- The bytes of the letters. -/
def unletters : Text → Text
  | x :: y :: t => ((x - 65) * 16 + (y - 65)) :: unletters t
  | _ => []

/-- No letter is `=`, and two of them give the byte. -/
theorem letters_spec (c : UInt8) :
    (letters c).filter (· ≠ padChar) = letters c ∧ ((65 + c / 16) - 65) * 16 + ((65 + c % 16) - 65) = c := by
  have hall : ∀ n < 256, (letters n.toUInt8).filter (· ≠ padChar) = letters n.toUInt8 ∧
      ((65 + n.toUInt8 / 16) - 65) * 16 + ((65 + n.toUInt8 % 16) - 65) = n.toUInt8 := by decide +kernel
  have hc : c.toNat.toUInt8 = c := UInt8.ofNat_toNat
  have h := hall c.toNat (UInt8.toNat_lt c)
  rw [hc] at h
  exact h

theorem unletters_letters (t : Text) : unletters ((t.flatMap letters).filter (· ≠ padChar)) = t := by
  induction t with
  | nil => rfl
  | cons c t ih =>
    rw [List.flatMap_cons, List.filter_append, (letters_spec c).1]
    exact congrArg₂ List.cons (letters_spec c).2 ih

/-- Functions simple enough to compute with: one digest for all, and letters for the alphabet. -/
def plainPhp : Php where
  md5 _ := ⟨List.replicate 32 48, rfl, fun c hc => by
    rw [List.eq_of_mem_replicate hc]
    exact .inl (by decide)⟩
  base64Encode t := t.flatMap letters
  base64Decode := unletters
  numericEq _ _ := false
  isZero t := t.all (· == 48)
  exceeds _ _ := false
  decode_unpadded := unletters_letters
  decode_empty := rfl
  numericEq_empty _ := rfl
  isZero_zeros := by decide

/-- `"1\r1"`, the user 1 who is an administrator. -/
def user1 : Text := [49, 13, 49]

/-- **Encoded and decoded, user 1 is the empty text.** -/
theorem authcode_user1 :
    (∀ (enkey : Text) (now now' : Now),
      authcode plainPhp enkey now' (authcode plainPhp enkey now user1 .encode) .decode = []) ∧ user1 ≠ [] :=
  ⟨fun enkey _ now' => authcode_decode plainPhp enkey now' _, by decide⟩

end SmartHome.ClientWeb
