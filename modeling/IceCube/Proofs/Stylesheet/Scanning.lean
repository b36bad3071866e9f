import Mathlib.Data.List.Basic
import IceCube.Stylesheet.Reader

/-!
# Comments, quotes and signs

Taking the comments out of a text and breaking it at a sign both go through it once and look at most
one character ahead.  So a text can be taken apart at every sign that is no part of a longer one, and
what a piece of it leaves open is all that matters for the rest.
-/

namespace IceCube.Stylesheet.Reader

variable {c : Char} {cs cs' head rest : List Char} {quote : Option Char}

/-! ## Comments and quotes -/

/-- The quote that is open at a place. -/
@[simp] def Place.quote? : Place → Option Char
  | .text quote => quote
  | _ => none

/-- The quote that is open at the end of a text without comments. -/
def openQuote : (quote : Option Char) → List Char → Option Char
  | quote, [] => quote
  | quote, '\\' :: _ :: cs => openQuote quote cs
  | quote, c :: cs => openQuote (quoteAfter quote c) cs

theorem openQuote_cons (h : c = '\\' → cs = []) :
    openQuote quote (c :: cs) = openQuote (quoteAfter quote c) cs := by
  rw [openQuote.eq_def]
  split <;> simp_all

/-- A backslash that takes no character with it is the last one. -/
theorem unpaired (h : ∀ d ds, c = '\\' → cs = d :: ds → False) (hc : c = '\\') : cs = [] := by
  cases cs with
  | nil => rfl
  | cons d ds => exact (h d ds hc rfl).elim

/-- The text without comments has a quote open exactly where the text has. -/
theorem openQuote_scan (place : Place) (cs : List Char) :
    openQuote place.quote? (scan place cs).1 = (scan place cs).2.quote? := by
  fun_induction scan place cs with
  | case1 place => simp [openQuote]
  | case2 cs ih => exact ih
  | case3 cs ih => exact ih
  | case4 quote c cs ih => simpa [openQuote, Place.quote?] using ih
  | case5 quote c cs _ _ hpair ih =>
    have hlast : c = '\\' → (scan (.text (quoteAfter quote c)) cs).1 = [] := fun e ↦ by
      rw [unpaired hpair e, scan]
    exact (openQuote_cons hlast).trans ih
  | case6 cs ih => exact ih
  | case7 c cs _ ih => exact ih
  | case8 cs ih => exact ih
  | case9 c cs _ ih => exact ih

/-- A sign that is a text of its own wherever it stands: no part of a longer sign, no quote. -/
def Plain (c : Char) : Prop := c ≠ '/' ∧ c ≠ '*' ∧ c ≠ '\\' ∧ c ≠ '"' ∧ c ≠ '\''

instance : Decidable (Plain c) := inferInstanceAs (Decidable (_ ∧ _))

/-- What can be open: no quote, or one of the two signs for it. -/
def Quotable (quote : Option Char) : Prop := quote = none ∨ quote = some '"' ∨ quote = some '\''

theorem quotable_none : Quotable none := .inl rfl

theorem Quotable.after (h : Quotable quote) (c : Char) : Quotable (quoteAfter quote c) := by
  cases quote with
  | none =>
    simp only [quoteAfter, Bool.or_eq_true, beq_iff_eq]
    split
    · rename_i hc
      exact .inr (hc.imp (congrArg some) (congrArg some))
    · exact .inl rfl
  | some q =>
    simp only [quoteAfter]
    split
    · exact .inl rfl
    · exact h

/-- A sign that is none of the quotes leaves open what is open. -/
theorem Quotable.after_eq (h : Quotable quote) (hdouble : c ≠ '"') (hsingle : c ≠ '\'') :
    quoteAfter quote c = quote := by
  obtain rfl | rfl | rfl := h <;> simp [quoteAfter, hdouble, hsingle]

theorem Quotable.after_plain (h : Quotable quote) (hc : Plain c) : quoteAfter quote c = quote :=
  h.after_eq hc.2.2.2.1 hc.2.2.2.2

/-- A character of a text that begins no longer sign. -/
theorem scan_text_cons (hback : c = '\\' → cs = [])
    (hslash : quote = none → c = '/' → cs.head? ≠ some '*' ∧ cs.head? ≠ some '/') :
    scan (.text quote) (c :: cs) = ahead [c] (scan (.text (quoteAfter quote c)) cs) := by
  rw [scan.eq_def]
  split <;> simp_all

theorem scan_blockComment_cons (hstar : c = '*' → cs.head? ≠ some '/') :
    scan .blockComment (c :: cs) = scan .blockComment cs := by
  rw [scan.eq_def]
  split <;> simp_all

/-- A text can be taken apart before a plain sign. -/
theorem scan_append_plain (hc : Plain c) (place : Place) (h : Quotable place.quote?)
    (cs cs' : List Char) : scan place (cs ++ c :: cs') =
      ahead (scan place cs).1 (scan (scan place cs).2 (c :: cs')) := by
  obtain ⟨hslash, hstar, hback, -, -⟩ := id hc
  fun_induction scan place cs with
  | case1 place => simp
  | case2 cs ih => simp [scan, ih quotable_none]
  | case3 cs ih => simp [scan, ih quotable_none]
  | case4 quote d cs ih => simp [scan, ih h]
  | case5 quote d cs hblock hline hpair ih =>
    have hquote : Quotable quote := h
    cases cs with
    | nil =>
      by_cases hd : d = '\\'
      · -- the backslash takes the plain sign with it, which leaves what is open as it is
        have hsame : quoteAfter quote '\\' = quote := hquote.after_eq (by decide) (by decide)
        simp [scan, hd, hsame, scan_text_cons, hslash, hback, hquote.after_plain hc]
      · simp [scan, scan_text_cons, hd, hslash, hstar]
    | cons e es =>
      rw [List.cons_append, scan_text_cons, ih (hquote.after d)]
      · simp
      · exact fun hd ↦ (hpair e es hd rfl).elim
      · rintro hnone rfl
        exact ⟨by simpa using hblock es hnone rfl, by simpa using hline es hnone rfl⟩
  | case6 cs ih => simp [scan, ih quotable_none]
  | case7 d cs hend ih =>
    rw [List.cons_append, scan, ih quotable_none]
    intro es hd hes
    cases cs with
    | nil => simp_all
    | cons e es' => simp_all
  | case8 cs ih => simp [scan, ih quotable_none]
  | case9 d cs hnewline ih =>
    rw [List.cons_append, scan, ih quotable_none]
    exact hnewline

/-- A text can be taken apart behind a plain sign. -/
theorem scan_append_behind (hc : Plain c) (place : Place) (h : Quotable place.quote?)
    (cs cs' : List Char) : scan place (cs ++ c :: cs') =
      ahead (scan place (cs ++ [c])).1 (scan (scan place (cs ++ [c])).2 cs') := by
  obtain ⟨hslash, hstar, hback, -, -⟩ := id hc
  have hsign (place : Place) :
      scan place (c :: cs') = ahead (scan place [c]).1 (scan (scan place [c]).2 cs') := by
    cases place with
    | text quote => simp [scan, scan_text_cons, hslash, hback]
    | blockComment => simp [scan, scan_blockComment_cons, hstar]
    | lineComment =>
      by_cases hline : c = '\n' <;> simp [scan, hline]
  rw [scan_append_plain hc place h, scan_append_plain hc place h, hsign]
  simp

/-- A text without comments and escapes in it is kept. -/
theorem scan_append_free (h : ∀ d ∈ cs, d ≠ '/' ∧ d ≠ '\\') (cs' : List Char) :
    scan (.text quote) (cs ++ cs') = ahead cs (scan (.text (openQuote quote cs)) cs') := by
  induction cs generalizing quote with
  | nil => simp [openQuote]
  | cons d cs ih =>
    obtain ⟨hslash, hback⟩ := h d (.head _)
    have hrest : scan (.text (quoteAfter quote d)) (cs ++ cs') =
        ahead cs (scan (.text (openQuote (quoteAfter quote d) cs)) cs') :=
      ih fun e he ↦ h e (.tail _ he)
    simp [scan_text_cons, openQuote_cons, hslash, hback, hrest]

/-! ## Breaking a text -/

section Breaking

variable {p : Char → Bool}

/-- A text in which no sign to break at is found and at whose end nothing is open. -/
inductive Passed (p : Char → Bool) : Option Char → List Char → Prop
  | nil : Passed p none []
  | escape {quote : Option Char} {cs : List Char} (c : Char) :
      Passed p quote cs → Passed p quote ('\\' :: c :: cs)
  | char {quote : Option Char} {c : Char} {cs : List Char} :
      c ≠ '\\' → (quote = none → p c = false) → Passed p (quoteAfter quote c) cs →
      Passed p quote (c :: cs)

theorem breakOutside_cons (h : c = '\\' → cs = []) : breakOutside p quote (c :: cs) =
    if quote.isNone && p c then ([], c :: cs)
    else ahead [c] (breakOutside p (quoteAfter quote c) cs) := by
  rw [breakOutside.eq_def]
  split <;> simp_all

theorem Passed.breakOutside_append (h : Passed p quote head) (cs : List Char) :
    breakOutside p quote (head ++ cs) = ahead head (breakOutside p none cs) := by
  induction h with
  | nil => simp
  | escape c _ ih => simp [breakOutside, ih]
  | @char quote c _ hback hfree _ ih =>
    have hnot : (quote.isNone && p c) = false := by
      cases quote <;> simp_all
    simp [breakOutside_cons, hback, hnot, ih]

theorem Passed.breakOutside_eq (h : Passed p none head) : breakOutside p none head = (head, []) := by
  simpa [ahead, breakOutside] using h.breakOutside_append []

theorem Passed.openQuote_append (h : Passed p quote head) (cs : List Char) :
    openQuote quote (head ++ cs) = openQuote none cs := by
  induction h with
  | nil => rfl
  | escape c _ ih => simpa [openQuote] using ih
  | char hback _ _ ih => simpa [openQuote_cons, hback] using ih

theorem Passed.openQuote_eq (h : Passed p quote head) : openQuote quote head = none := by
  simpa [openQuote] using h.openQuote_append []

theorem breakOutside_append (p : Char → Bool) (quote : Option Char) (cs : List Char) :
    (breakOutside p quote cs).1 ++ (breakOutside p quote cs).2 = cs := by
  fun_induction breakOutside p quote cs <;> simp_all

theorem breakOutside_unbroken (h : breakOutside p quote cs = (head, [])) : head = cs := by
  simpa [h] using breakOutside_append p quote cs

/-- The sign at which a text is broken is the first one outside quotes. -/
theorem breakOutside_found (h : breakOutside p quote cs = (head, c :: rest)) :
    Passed p quote head ∧ p c = true := by
  fun_induction breakOutside p quote cs generalizing head with
  | case1 => simp at h
  | case2 quote d cs ih =>
    obtain ⟨rfl, hrest⟩ := Prod.mk.inj h
    obtain ⟨hpassed, hfound⟩ := ih (Prod.ext rfl hrest)
    exact ⟨.escape d hpassed, hfound⟩
  | case3 quote d cs hpair hfound =>
    obtain ⟨rfl, hrest⟩ := Prod.mk.inj h
    obtain ⟨rfl, rfl⟩ := List.cons.inj hrest
    obtain ⟨hnone, hfound⟩ := Bool.and_eq_true_iff.mp hfound
    rw [Option.isNone_iff_eq_none.mp hnone]
    exact ⟨.nil, hfound⟩
  | case4 quote d cs hpair hfound ih =>
    obtain ⟨rfl, hrest⟩ := Prod.mk.inj h
    obtain ⟨hpassed, hsign⟩ := ih (Prod.ext rfl hrest)
    refine ⟨.char ?_ ?_ hpassed, hsign⟩
    · intro e
      simp [unpaired hpair e, breakOutside] at hrest
    · rintro rfl
      simpa using hfound

/-- A text without a sign to break at and without an open quote goes on with a plain sign. -/
theorem Passed.of_unbroken (hc : Plain c) (hp : p c = false) (hquote : Quotable quote)
    (h : (breakOutside p quote cs).2 = []) (hopen : openQuote quote cs = none) :
    Passed p quote (cs ++ [c]) := by
  fun_induction breakOutside p quote cs with
  | case1 quote =>
    obtain rfl : quote = none := hopen
    exact .char hc.2.2.1 (fun _ ↦ hp) (by rw [hquote.after_plain hc]; exact .nil)
  | case2 quote d cs ih => exact .escape d (ih hquote h (by simpa [openQuote] using hopen))
  | case3 quote d cs hpair hfound => simp at h
  | case4 quote d cs hpair hfound ih =>
    by_cases hd : d = '\\'
    · obtain rfl := unpaired hpair hd
      subst hd
      have hsame : quoteAfter quote '\\' = quote := hquote.after_eq (by decide) (by decide)
      obtain rfl : quote = none := by simpa [openQuote, hsame] using hopen
      exact .escape c .nil
    · refine .char hd ?_ (ih (hquote.after d) h (by simpa [openQuote_cons, hd] using hopen))
      rintro rfl
      simpa using hfound

theorem Passed.append_free (h : ∀ d ∈ cs, d ≠ '\\' ∧ p d = false)
    (htail : Passed p (openQuote quote cs) cs') : Passed p quote (cs ++ cs') := by
  induction cs generalizing quote with
  | nil => simpa [openQuote] using htail
  | cons d cs ih =>
    obtain ⟨hback, hfree⟩ := h d (.head _)
    refine .char hback (fun _ ↦ hfree) (ih (fun e he ↦ h e (.tail _ he)) ?_)
    simpa [openQuote_cons, hback] using htail

theorem Passed.append_quoted {q : Char} (h : ∀ d ∈ cs, d ≠ '\\' ∧ d ≠ q)
    (htail : Passed p (some q) cs') : Passed p (some q) (cs ++ cs') := by
  induction cs with
  | nil => exact htail
  | cons d cs ih =>
    obtain ⟨hback, hquote⟩ := h d (.head _)
    refine .char hback nofun ?_
    simpa [quoteAfter, hquote] using ih fun e he ↦ h e (.tail _ he)

end Breaking

end IceCube.Stylesheet.Reader
