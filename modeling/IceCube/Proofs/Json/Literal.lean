import Mathlib.Tactic.IntervalCases
import IceCube.Json.Reader
import IceCube.Json.Writer

/-!
# String literals read back

Whatever characters a text has and whichever escaping it is written with, the reader takes from its
literal exactly the characters that were written.
-/

namespace IceCube

/-! ## Hexadecimal digits -/

namespace Text

theorem hexValue?_hexDigit {d : Nat} (hd : d < 16) : hexValue? (hexDigit d) = some d := by
  interval_cases d <;> rfl

theorem exists_of_mem_hexDigits {width n : Nat} {c : Char} (h : c ∈ hexDigits width n) :
    ∃ d < 16, c = hexDigit d := by
  induction width generalizing n with
  | zero => cases h
  | succ width ih =>
    rw [hexDigits, List.mem_append, List.mem_singleton] at h
    rcases h with h | rfl
    · exact ih h
    · exact ⟨n % 16, Nat.mod_lt n (by decide), rfl⟩

end Text

namespace Json

open Text (hexDigit hexDigits hexValue?_hexDigit)

/-! ## What is written for a character -/

namespace Writer

theorem codeUnits_eq (c : Char) : codeUnits c = '\\' :: 'u' :: (codeUnits c).drop 2 := by
  unfold codeUnits
  dsimp only
  split <;> rfl

/-- A character is written as the escape of a letter, by its code units, or as itself. -/
theorem char_forms (escaping : Escaping) (c : Char) :
    (∃ l, Reader.escaped? l = some c ∧ l ≠ 'u' ∧ char escaping c = ['\\', l]) ∨
      char escaping c = codeUnits c ∨
      (char escaping c = [c] ∧ c ≠ '"' ∧ c ≠ '\\' ∧ ¬ c.toNat < 0x20) := by
  by_cases hquote : c = '"'
  · subst hquote
    exact .inl ⟨'"', rfl, by decide, rfl⟩
  by_cases hback : c = '\\'
  · subst hback
    exact .inl ⟨'\\', rfl, by decide, rfl⟩
  by_cases hn : c = '\n'
  · subst hn
    exact .inl ⟨'n', rfl, by decide, rfl⟩
  by_cases hr : c = '\r'
  · subst hr
    exact .inl ⟨'r', rfl, by decide, rfl⟩
  by_cases ht : c = '\t'
  · subst ht
    exact .inl ⟨'t', rfl, by decide, rfl⟩
  by_cases hb : c = '\x08'
  · subst hb
    exact .inl ⟨'b', rfl, by decide, rfl⟩
  by_cases hf : c = '\x0c'
  · subst hf
    exact .inl ⟨'f', rfl, by decide, rfl⟩
  -- no letter escapes the character
  by_cases hcontrol : c.toNat < 0x20
  · have hunits : char escaping c = codeUnits c := by
      simp [char, codeUnits, hquote, hback, hn, hr, ht, hb, hf, hcontrol,
        show c.toNat < 0x10000 by omega]
    exact .inr (.inl hunits)
  · cases escaping with
    | least =>
      have hself : char .least c = [c] := by
        simp [char, hquote, hback, hn, hr, ht, hb, hf, hcontrol]
      exact .inr (.inr ⟨hself, hquote, hback, hcontrol⟩)
    | ascii =>
      have hascii : char .ascii c = if c.toNat < 0x7f then [c] else codeUnits c := by
        simp [char, hquote, hback, hn, hr, ht, hb, hf, hcontrol]
      rw [hascii]
      split
      · exact .inr (.inr ⟨rfl, hquote, hback, hcontrol⟩)
      · exact .inr (.inl rfl)

end Writer

namespace Reader

theorem hexDigits_four (n : Nat) : hexDigits 4 n =
    [hexDigit (n / 4096 % 16), hexDigit (n / 256 % 16), hexDigit (n / 16 % 16),
      hexDigit (n % 16)] := by
  simp [hexDigits, Nat.div_div_eq_div_mul]

/-- Four digits read back as the number that they write. -/
theorem codeUnit?_hexDigits {n : Nat} (hn : n < 0x10000) : codeUnit? (hexDigits 4 n) = some n := by
  have h : ((n / 4096 % 16 * 16 + n / 256 % 16) * 16 + n / 16 % 16) * 16 + n % 16 = n := by omega
  simp [hexDigits_four, codeUnit?, hexValue?_hexDigit (Nat.mod_lt _ _), h]

theorem take_hexDigits (n : Nat) (cs : List Char) :
    (hexDigits 4 n ++ cs).take 4 = hexDigits 4 n := by simp [hexDigits_four]

theorem drop_hexDigits (n : Nat) (cs : List Char) : (hexDigits 4 n ++ cs).drop 4 = cs := by
  simp [hexDigits_four]

/-! ## Escapes of code units -/

/-- A code unit that is no first half stands for a character of its own. -/
theorem unicode_of_not_high {n : Nat} (hn : n < 0x10000) (hhigh : isHigh n = false) (c : Char)
    (cs : List Char) :
    unicode (hexDigits 4 n ++ c :: cs) = .ok (Char.ofNat n, c :: cs) := by
  simp only [unicode, take_hexDigits, drop_hexDigits, codeUnit?_hexDigits hn, hhigh,
    Bool.false_and]
  split <;> rfl

/-- A first half with a second half after it stands for the character of the pair. -/
theorem unicode_of_pair {high low : Nat} (hhigh : isHigh high = true) (hlow : isLow low = true)
    (c : Char) (cs : List Char) :
    unicode (hexDigits 4 high ++ '\\' :: 'u' :: (hexDigits 4 low ++ c :: cs)) =
      .ok (joined high low, c :: cs) := by
  have hh : high < 0x10000 := by simp [isHigh] at hhigh; omega
  have hl : low < 0x10000 := by simp [isLow] at hlow; omega
  have hlen : 4 < (hexDigits 4 low ++ c :: cs).length := by simp [hexDigits_four]
  simp only [unicode, take_hexDigits, drop_hexDigits, codeUnit?_hexDigits hh,
    codeUnit?_hexDigits hl, hhigh, hlow, hlen, Bool.true_and, decide_true, if_true]

theorem isHigh_toNat (c : Char) : isHigh c.toNat = false := by
  have h := c.valid
  simp only [UInt32.isValidChar, Nat.isValidChar] at h
  simp only [isHigh, Bool.and_eq_false_iff, decide_eq_false_iff_not]
  have hc : c.toNat = c.val.toNat := rfl
  omega

/-- The escapes of a character read back as the character. -/
theorem unicode_codeUnits (c d : Char) (cs : List Char) :
    unicode ((Writer.codeUnits c).drop 2 ++ d :: cs) = .ok (c, d :: cs) := by
  unfold Writer.codeUnits
  dsimp only
  split
  · rename_i hn
    exact (unicode_of_not_high hn (isHigh_toNat c) d cs).trans (by rw [Char.ofNat_toNat])
  · rename_i hn
    have hmax : c.toNat < 0x110000 := by
      have h := c.valid
      simp only [UInt32.isValidChar, Nat.isValidChar] at h
      have hc : c.toNat = c.val.toNat := rfl
      omega
    have hhigh : isHigh (0xD800 + (c.toNat - 0x10000) / 0x400) = true := by
      simp [isHigh]; omega
    have hlow : isLow (0xDC00 + (c.toNat - 0x10000) % 0x400) = true := by
      simp [isLow]; omega
    have hjoined : joined (0xD800 + (c.toNat - 0x10000) / 0x400)
        (0xDC00 + (c.toNat - 0x10000) % 0x400) = c := by
      rw [joined, show 0x10000 + (0xD800 + (c.toNat - 0x10000) / 0x400 - 0xD800) * 0x400
        + (0xDC00 + (c.toNat - 0x10000) % 0x400 - 0xDC00) = c.toNat by omega, Char.ofNat_toNat]
    have h := unicode_of_pair hhigh hlow d cs
    rw [hjoined] at h
    simpa [Writer.unicode] using h

/-! ## The body of a literal -/

variable {start read cs : List Char} {fuel : Nat}

theorem stringBody_quote :
    stringBody start (fuel + 1) read ('"' :: cs) = .ok (String.ofList read.reverse, cs) := by
  simp [stringBody]

theorem stringBody_plain {c : Char} (hquote : c ≠ '"') (hback : c ≠ '\\')
    (hcontrol : ¬ c.toNat < 0x20) :
    stringBody start (fuel + 1) read (c :: cs) = stringBody start fuel (c :: read) cs := by
  rw [stringBody, if_neg hcontrol]
  · exact hquote
  · exact fun h _ ↦ hback h
  · exact fun _ h _ ↦ hback h
  · exact fun _ _ h _ ↦ hback h

theorem stringBody_escaped {c d : Char} (hu : c ≠ 'u') (hc : escaped? c = some d) :
    stringBody start (fuel + 1) read ('\\' :: c :: cs) = stringBody start fuel (d :: read) cs := by
  rw [stringBody, hc]
  exact hu

theorem stringBody_unicode {c : Char} {rest : List Char} (hc : unicode cs = .ok (c, rest)) :
    stringBody start (fuel + 1) read ('\\' :: 'u' :: cs) = stringBody start fuel (c :: read) rest
    := by
  simp [stringBody, hc, bind, Except.bind]

/-- A form in which a reader of literals takes back characters one by one. -/
def ReadsBack (form : Char → List Char) : Prop :=
  ∀ (start read cs : List Char) (fuel : Nat) (c d : Char),
    stringBody start (fuel + 1) read (form c ++ d :: cs) =
      stringBody start fuel (c :: read) (d :: cs)

/-- What is written for a character is read back as that character. -/
theorem readsBack_char (escaping : Escaping) : ReadsBack (Writer.char escaping) := by
  intro start read cs fuel c d
  rcases Writer.char_forms escaping c with ⟨l, hl, hu, h⟩ | h | ⟨h, hquote, hback, hcontrol⟩
  · rw [h]
    exact stringBody_escaped hu hl
  · rw [h, Writer.codeUnits_eq]
    exact stringBody_unicode (unicode_codeUnits c d cs)
  · rw [h]
    exact stringBody_plain hquote hback hcontrol

namespace ReadsBack

variable {form : Char → List Char} (h : ReadsBack form)
include h

/-- Something is written for every character, or a closing quote could be read in its place. -/
theorem length_pos (c : Char) : 0 < (form c).length := by
  rw [List.length_pos_iff]
  intro hnil
  have hread := h [] [] [] 0 c '"'
  rw [hnil, List.nil_append, stringBody_quote] at hread
  cases hread

theorem length_le_length_flatMap (s : List Char) : s.length ≤ (s.flatMap form).length := by
  induction s with
  | nil => simp
  | cons c s ih =>
    have hc := h.length_pos c
    simp only [List.flatMap_cons, List.length_append, List.length_cons]
    omega

/-- The rest of a literal gives its characters and what follows it. -/
theorem stringBody_flatMap (s : List Char) (hs : s.length < fuel) :
    stringBody start fuel read (s.flatMap form ++ '"' :: cs) =
      .ok (String.ofList (read.reverse ++ s), cs) := by
  induction s generalizing fuel read with
  | nil =>
    obtain ⟨fuel, rfl⟩ := Nat.exists_eq_add_one_of_ne_zero (Nat.ne_of_gt hs)
    simp [stringBody_quote]
  | cons c s ih =>
    obtain ⟨fuel, rfl⟩ := Nat.exists_eq_add_one_of_ne_zero (Nat.ne_of_gt (Nat.zero_lt_of_lt hs))
    -- a quote or the form of the next character follows, so never the end of the text
    obtain ⟨d, ds, hd⟩ : ∃ d ds, s.flatMap form ++ '"' :: cs = d :: ds :=
      List.exists_cons_of_ne_nil (by simp)
    rw [List.flatMap_cons, List.append_assoc, hd, h start read ds fuel c d, ← hd,
      ih (Nat.lt_of_succ_lt_succ hs)]
    simp

/-- A string literal reads back as the text that it writes. -/
theorem string_flatMap (s : String) (rest : List Char) :
    string ('"' :: (s.toList.flatMap form ++ '"' :: rest)) = .ok (s, rest) := by
  have hlength := h.length_le_length_flatMap s.toList
  rw [string, List.drop_one, List.tail_cons, h.stringBody_flatMap, List.reverse_nil,
    List.nil_append, String.ofList_toList]
  simp only [List.length_cons, List.length_append]
  omega

end ReadsBack

/-- A string literal reads back in every way of escaping. -/
theorem string_write (escaping : Escaping) (s : String) (rest : List Char) :
    string (Writer.string escaping s ++ rest) = .ok (s, rest) := by
  have hread := (readsBack_char escaping).string_flatMap s rest
  rwa [Writer.string, List.cons_append, List.append_assoc, List.singleton_append]

end Reader

end Json

end IceCube
