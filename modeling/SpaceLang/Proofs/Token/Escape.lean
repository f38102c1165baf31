import Mathlib.Tactic.SplitIfs
import SpaceLang.Token.Escape

/-!
# Escaped text is read back

A character is escaped in one of three forms (`Escape.Form`): as a mark behind a backslash, as
itself, or by its code point between braces. All of them are printable ASCII (`mem_text`), and what
follows a backslash tells them apart. `Escape.undo?` reads an escaped text, and refuses an unknown
mark and a code point that is padded, in upper case or no character. It undoes the escapes of every
text (`undo?_text`), so no two texts have one escaped form.
-/

namespace SpaceLang.Escape

variable {c d : Char} {s : String} {digits : List Char}

/-! ## Reading -/

/-- The value of a hexadecimal digit in lower case. -/
def digit? (c : Char) : Option Nat :=
  if '0' ≤ c ∧ c ≤ '9' then some (c.toNat - '0'.toNat)
  else if 'a' ≤ c ∧ c ≤ 'f' then some (c.toNat - 'a'.toNat + 10)
  else none

/-- The number that hexadecimal digits denote. There is none for no digits, nor for digits that are
padded with zeros. -/
def number? (digits : List Char) : Option Nat :=
  if digits = [] ∨ digits.head? = some '0' ∧ digits ≠ ['0'] then none
  else digits.foldlM (fun n c => (digit? c).map (16 * n + ·)) 0

/-- The character with a code point. -/
def character? (digits : List Char) : Option Char :=
  (number? digits).bind fun n => if n.isValidChar then some (Char.ofNat n) else none

/-- The character that a mark behind a backslash stands for. -/
def marked? : Char → Option Char
  | 't' => some '\t'
  | 'r' => some '\r'
  | 'n' => some '\n'
  | '\'' => some '\''
  | '"' => some '"'
  | '\\' => some '\\'
  | _ => none

/-- The text that an escaped text stands for. -/
def undo? : List Char → Option (List Char)
  | [] => some []
  | ['\\'] => none
  | '\\' :: 'u' :: '\x7b' :: cs =>
    if '\x7d' ∈ cs then
      (character? (cs.takeWhile (· ≠ '\x7d'))).bind fun c =>
        (undo? (cs.dropWhile (· ≠ '\x7d')).tail).map (c :: ·)
    else none
  | '\\' :: d :: cs => (marked? d).bind fun c => (undo? cs).map (c :: ·)
  | c :: cs => (undo? cs).map (c :: ·)
termination_by cs => cs.length
decreasing_by
  · have hle := (List.dropWhile_suffix (fun c => decide (c ≠ '\x7d')) (l := cs)).length_le
    simp only [List.length_tail, List.length_cons]
    omega
  · simp only [List.length_cons]
    omega
  · exact Nat.lt_succ_self _

theorem undo?_mark (h : marked? d = some c) (cs : List Char) :
    undo? ('\\' :: d :: cs) = (undo? cs).map (c :: ·) := by
  have hcode : d ≠ 'u' := by
    rintro rfl
    cases h
  rw [undo?, h]
  · rfl
  · exact fun _ hd => absurd hd hcode

theorem undo?_plain (h : c ≠ '\\') (cs : List Char) :
    undo? (c :: cs) = (undo? cs).map (c :: ·) := by
  rw [undo?]
  · exact fun hc => absurd hc h
  · exact fun _ hc => absurd hc h
  · exact fun _ _ hc => absurd hc h

theorem undo?_code (h : character? digits = some c) (hbrace : '\x7d' ∉ digits) (cs : List Char) :
    undo? ('\\' :: 'u' :: '\x7b' :: (digits ++ '\x7d' :: cs)) = (undo? cs).map (c :: ·) := by
  have hdigits : ∀ d ∈ digits, decide (d ≠ '\x7d') := by
    intro d hd
    apply decide_eq_true
    rintro rfl
    exact hbrace hd
  have htake : (digits ++ '\x7d' :: cs).takeWhile (· ≠ '\x7d') = digits := by
    rw [List.takeWhile_append_of_pos hdigits, List.takeWhile_cons_of_neg (by simp), List.append_nil]
  have hdrop : (digits ++ '\x7d' :: cs).dropWhile (· ≠ '\x7d') = '\x7d' :: cs := by
    rw [List.dropWhile_append_of_pos hdigits, List.dropWhile_cons_of_neg (by simp)]
  rw [undo?, if_pos (by simp), htake, hdrop, h]
  rfl

/-! ## Hexadecimal digits -/

/-- The digits of a number are found one by one, the last one first. -/
theorem hexadecimal_induct {motive : Nat → List Char → Prop}
    (digit : ∀ n < 16, motive n [n.digitChar])
    (concat : ∀ n, 16 ≤ n → motive (n / 16) (hexadecimal (n / 16)) →
      motive n (hexadecimal (n / 16) ++ [(n % 16).digitChar])) (n : Nat) :
    motive n (hexadecimal n) := by
  induction n using Nat.strongRecOn with
  | _ n ih =>
    rw [hexadecimal, Nat.toDigits_eq_if (by decide)]
    split
    · next hn => exact digit n hn
    · next hn => exact concat n (by omega) (ih (n / 16) (by omega))

theorem hexadecimal_ne_nil (n : Nat) : hexadecimal n ≠ [] := Nat.toDigits_ne_nil

theorem digit?_digitChar {k : Nat} (h : k < 16) : digit? k.digitChar = some k := by
  revert k
  decide

theorem mem_hexadecimal {n : Nat} (h : c ∈ hexadecimal n) :
    (' ' ≤ c ∧ c ≤ '~') ∧ c ≠ '\x7d' := by
  have hdigit : ∀ k < 16, (' ' ≤ k.digitChar ∧ k.digitChar ≤ '~') ∧ k.digitChar ≠ '\x7d' := by
    decide
  revert h
  refine hexadecimal_induct (motive := fun _ digits => c ∈ digits →
    (' ' ≤ c ∧ c ≤ '~') ∧ c ≠ '\x7d') ?_ ?_ n
  · intro n hn h
    rw [List.mem_singleton.1 h]
    exact hdigit n hn
  · intro n _ ih h
    rcases List.mem_append.1 h with h | h
    · exact ih h
    · rw [List.mem_singleton.1 h]
      exact hdigit (n % 16) (by omega)

theorem foldlM_hexadecimal (n : Nat) :
    (hexadecimal n).foldlM (fun m c => (digit? c).map (16 * m + ·)) 0 = some n := by
  refine hexadecimal_induct (motive := fun n digits =>
    digits.foldlM (fun m c => (digit? c).map (16 * m + ·)) 0 = some n) ?_ ?_ n
  · intro n hn
    simp [digit?_digitChar hn]
  · intro n _ ih
    have hlast := digit?_digitChar (Nat.mod_lt n (by decide : 16 > 0))
    simp [List.foldlM_append, ih, hlast, Nat.div_add_mod]

theorem hexadecimal_unpadded (n : Nat) (h : (hexadecimal n).head? = some '0') : n = 0 := by
  have hzero : ∀ k < 16, k.digitChar = '0' → k = 0 := by decide
  revert h
  refine hexadecimal_induct (motive := fun n digits => digits.head? = some '0' → n = 0) ?_ ?_ n
  · intro n hn h
    exact hzero n hn (Option.some.inj h)
  · intro n hn ih h
    obtain ⟨d, ds, hcons⟩ := List.exists_cons_of_ne_nil (hexadecimal_ne_nil (n / 16))
    rw [hcons] at h ih
    have hquotient := ih h
    omega

theorem character?_hexadecimal (c : Char) : character? (hexadecimal c.toNat) = some c := by
  have hunpadded : ¬ (hexadecimal c.toNat = [] ∨
      (hexadecimal c.toNat).head? = some '0' ∧ hexadecimal c.toNat ≠ ['0']) := by
    rintro (hnil | ⟨hhead, hne⟩)
    · exact hexadecimal_ne_nil _ hnil
    · rw [hexadecimal_unpadded _ hhead] at hne
      exact hne rfl
  have hvalid : c.toNat.isValidChar := c.valid
  rw [character?, number?, if_neg hunpadded, foldlM_hexadecimal, Option.bind_some, if_pos hvalid,
    Char.ofNat_toNat]

/-! ## Forms -/

/-- The ways to escape a character. -/
inductive Form (c : Char) : List Char → Prop
  | mark {d : Char} : marked? d = some c → ' ' ≤ d ∧ d ≤ '~' → Form c ['\\', d]
  | plain : c ≠ '\\' → ' ' ≤ c ∧ c ≤ '~' → Form c [c]
  | code : Form c ('\\' :: 'u' :: '\x7b' :: (hexadecimal c.toNat ++ ['\x7d']))

theorem form_char (c : Char) : Form c (char c) := by
  unfold char
  split_ifs with htab hreturn hnewline hquote hdouble hback hprint
  · exact .mark (by rw [htab]; rfl) (by decide)
  · exact .mark (by rw [hreturn]; rfl) (by decide)
  · exact .mark (by rw [hnewline]; rfl) (by decide)
  · exact .mark (by rw [hquote]; rfl) (by decide)
  · exact .mark (by rw [hdouble]; rfl) (by decide)
  · exact .mark (by rw [hback]; rfl) (by decide)
  · exact .plain hback hprint
  · exact .code

theorem Form.printable {cs : List Char} (h : Form c cs) (hd : d ∈ cs) : ' ' ≤ d ∧ d ≤ '~' := by
  cases h with
  | mark _ hprint =>
    rw [List.mem_cons, List.mem_singleton] at hd
    rcases hd with rfl | rfl
    · decide
    · exact hprint
  | plain _ hprint =>
    obtain rfl := List.mem_singleton.1 hd
    exact hprint
  | code =>
    simp only [List.mem_cons, List.mem_append, List.not_mem_nil, or_false] at hd
    rcases hd with rfl | rfl | rfl | hd | rfl
    · decide
    · decide
    · decide
    · exact (mem_hexadecimal hd).1
    · decide

theorem Form.undo?_append {cs : List Char} (h : Form c cs) (rest : List Char) :
    undo? (cs ++ rest) = (undo? rest).map (c :: ·) := by
  cases h with
  | mark hmark _ => exact undo?_mark hmark rest
  | plain hback _ => exact undo?_plain hback rest
  | code =>
    have hbrace : '\x7d' ∉ hexadecimal c.toNat := fun hmem => (mem_hexadecimal hmem).2 rfl
    have hread := undo?_code (character?_hexadecimal c) hbrace rest
    rwa [List.cons_append, List.cons_append, List.cons_append, List.append_assoc]

/-! ## Texts -/

theorem mem_text (h : c ∈ (text s).toList) : ' ' ≤ c ∧ c ≤ '~' := by
  rw [text, String.toList_ofList] at h
  obtain ⟨d, -, hd⟩ := List.mem_flatMap.1 h
  exact (form_char d).printable hd

theorem undo?_flatMap_char (cs : List Char) : undo? (cs.flatMap char) = some cs := by
  induction cs with
  | nil => rw [List.flatMap_nil, undo?]
  | cons c cs ih => rw [List.flatMap_cons, (form_char c).undo?_append, ih, Option.map_some]

/-- Reading undoes the escapes of every text. -/
theorem undo?_text (s : String) : undo? (text s).toList = some s.toList := by
  rw [text, String.toList_ofList, undo?_flatMap_char]

theorem text_injective {s t : String} (h : text s = text t) : s = t := by
  have hread := undo?_text s
  rw [h, undo?_text t] at hread
  exact String.toList_injective (Option.some.inj hread).symm

end SpaceLang.Escape
