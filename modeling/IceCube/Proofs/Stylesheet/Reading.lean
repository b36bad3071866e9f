import IceCube.Proofs.Stylesheet.Scanning
import IceCube.Proofs.Traversal

/-!
# What a sheet reads as

A reading of a sheet takes one statement after the other and never looks behind the sign at which a
statement ends.  So a block reads the same whatever stands behind its brace, a sheet whose quotes and
comments are closed reads the same inside a block, and the brace that ends a block is the first one
that closes more than was opened.
-/

namespace IceCube.Stylesheet.Reader

variable {c : Char} {cs head rest : List Char} {quote : Option Char}

/-! ## Statements -/

/-- What a text reads as at the outermost level, or inside a block up to its end, and what is left
behind that. -/
inductive Reads : (inner : Bool) → List Char → List Statement → List Char → Prop
  | ending {cs : List Char} {found : List Statement} :
      (breakOutside endsStatement none cs).2 = [] → simple? (Text.trim cs) = some found →
      Reads false cs found []
  | closing {head rest : List Char} {found : List Statement} :
      Passed endsStatement none head → simple? (Text.trim head) = some found →
      Reads true (head ++ '\x7d' :: rest) found rest
  | simple {inner : Bool} {head rest left : List Char} {found more : List Statement} :
      Passed endsStatement none head → simple? (Text.trim head) = some found →
      Reads inner rest more left → Reads inner (head ++ ';' :: rest) (found ++ more) left
  | block {inner : Bool} {head rest rest' left : List Char} {selectors : List Selector}
      {body more : List Statement} :
      Passed endsStatement none head → selectors? (Text.trim head) = some selectors →
      Reads true rest body rest' → Reads inner rest' more left →
      Reads inner (head ++ '\x7b' :: rest) (.rule selectors body :: more) left

variable {inner : Bool} {left : List Char} {found : List Statement}

theorem reads_of_statements {fuel : ℕ} (h : statements fuel inner cs = some (found, left)) :
    Reads inner cs found left := by
  induction fuel generalizing inner cs found left with
  | zero => simp [statements] at h
  | succ fuel ih =>
    have happend := breakOutside_append endsStatement none cs
    rw [statements] at h
    split at h
    · rename_i head rest hbreak
      simp only [Option.bind_eq_bind, Option.bind_eq_some_iff, Option.pure_def,
        Option.some.injEq, Prod.mk.injEq, Prod.exists] at h
      obtain ⟨selectors, hselectors, body, rest', hbody, more, left, hmore, rfl, rfl⟩ := h
      rw [← happend, hbreak]
      exact .block (breakOutside_found hbreak).1 hselectors (ih hbody) (ih hmore)
    · rename_i head rest hbreak
      simp only [Option.bind_eq_bind, Option.bind_eq_some_iff, Option.pure_def,
        Option.some.injEq, Prod.mk.injEq, Prod.exists] at h
      obtain ⟨found, hfound, more, left, hmore, rfl, rfl⟩ := h
      rw [← happend, hbreak]
      exact .simple (breakOutside_found hbreak).1 hfound (ih hmore)
    · rename_i head rest hblock hsimple hbreak
      simp only [Option.bind_eq_bind, Option.bind_eq_some_iff] at h
      obtain ⟨found, hfound, h⟩ := h
      rw [Option.ite_none_left_eq_some] at h
      obtain ⟨hend, h⟩ := h
      obtain ⟨rfl, rfl⟩ := Prod.mk.inj (Option.some.inj h)
      cases rest with
      | nil =>
        obtain rfl := breakOutside_unbroken hbreak
        cases inner with
        | false => exact .ending (by rw [hbreak]) hfound
        | true => simp at hend
      | cons c rest =>
        cases inner with
        | false => simp at hend
        | true =>
          obtain ⟨hpassed, hc⟩ := breakOutside_found hbreak
          have hsemicolon : c ≠ ';' := fun e ↦ hsimple rest (by rw [e])
          have hopening : c ≠ '\x7b' := fun e ↦ hblock rest (by rw [e])
          obtain rfl : c = '\x7d' := by simpa [endsStatement, hsemicolon, hopening] using hc
          rw [← happend, hbreak]
          exact .closing hpassed hfound

theorem Reads.length_le (h : Reads inner cs found left) : left.length ≤ cs.length := by
  induction h with
  | ending => simp
  | closing => simp; omega
  | simple _ _ _ ih => simp; omega
  | block _ _ _ _ ihbody ih => simp; omega

theorem Passed.breakOutside_statement (h : Passed endsStatement none head)
    (hc : endsStatement c = true) :
    breakOutside endsStatement none (head ++ c :: rest) = (head, c :: rest) := by
  have hback : c ≠ '\\' := by
    rintro rfl
    simp [endsStatement] at hc
  rw [h.breakOutside_append, breakOutside_cons (fun e ↦ (hback e).elim)]
  simp [hc, ahead]

/-- A text is read to its end if there are more steps left than it has characters. -/
theorem Reads.statements_eq (h : Reads inner cs found left) (fuel : ℕ) (hfuel : cs.length < fuel) :
    statements fuel inner cs = some (found, left) := by
  induction h generalizing fuel with
  | ending hunbroken hfound =>
    obtain ⟨fuel, rfl⟩ := Nat.exists_eq_succ_of_ne_zero (Nat.ne_zero_of_lt hfuel)
    rename_i cs found
    have hbreak : breakOutside endsStatement none cs = (cs, []) := by
      have := breakOutside_append endsStatement none cs
      rw [hunbroken, List.append_nil] at this
      exact Prod.ext this hunbroken
    simp [statements, hbreak, hfound]
  | closing hpassed hfound =>
    obtain ⟨fuel, rfl⟩ := Nat.exists_eq_succ_of_ne_zero (Nat.ne_zero_of_lt hfuel)
    simp [statements, hpassed.breakOutside_statement (c := '\x7d') rfl, hfound]
  | simple hpassed hfound hmore ih =>
    obtain ⟨fuel, rfl⟩ := Nat.exists_eq_succ_of_ne_zero (Nat.ne_zero_of_lt hfuel)
    simp only [List.length_append, List.length_cons] at hfuel
    simp [statements, hpassed.breakOutside_statement (c := ';') rfl, hfound,
      ih fuel (by omega)]
  | block hpassed hselectors hbody hmore ihbody ih =>
    obtain ⟨fuel, rfl⟩ := Nat.exists_eq_succ_of_ne_zero (Nat.ne_zero_of_lt hfuel)
    have := hbody.length_le
    simp only [List.length_append, List.length_cons] at hfuel
    simp [statements, hpassed.breakOutside_statement (c := '\x7b') rfl, hselectors,
      ihbody fuel (by omega), ih fuel (by omega)]

/-- What opens a block is a rule, whatever the text goes on with. -/
theorem Reads.block_inv (h : Reads inner (head ++ '\x7b' :: rest) found left)
    (hpassed : Passed endsStatement none head) :
    ∃ selectors body rest' more, selectors? (Text.trim head) = some selectors ∧
      Reads true rest body rest' ∧ Reads inner rest' more left ∧
      found = .rule selectors body :: more := by
  have hbreak : breakOutside endsStatement none (head ++ '\x7b' :: rest) = (head, '\x7b' :: rest) :=
    hpassed.breakOutside_statement rfl
  generalize hcs : head ++ '\x7b' :: rest = cs at h hbreak
  cases h with
  | ending hunbroken => simp [hbreak] at hunbroken
  | closing hother =>
    rw [hother.breakOutside_statement rfl] at hbreak
    simp at hbreak
  | simple hother =>
    rw [hother.breakOutside_statement rfl] at hbreak
    simp at hbreak
  | block hother hselectors hbody hmore =>
    rw [hother.breakOutside_statement rfl] at hbreak
    obtain ⟨rfl, hrest⟩ := Prod.mk.inj hbreak
    obtain ⟨-, rfl⟩ := List.cons.inj hrest
    exact ⟨_, _, _, _, hselectors, hbody, hmore, rfl⟩

theorem Reads.left_eq_nil (h : Reads false cs found left) : left = [] := by
  generalize hinner : false = inner at h
  induction h with
  | ending => rfl
  | closing => cases hinner
  | simple _ _ _ ih => exact ih hinner
  | block _ _ _ _ _ ih => exact ih hinner

/-- A blank before a text plays no part. -/
theorem Reads.blank (h : Reads inner cs found left) : Reads inner (' ' :: cs) found left := by
  have htrim (ds : List Char) : Text.trim (' ' :: ds) = Text.trim ds := rfl
  have hpass {ds : List Char} (hds : Passed endsStatement none ds) :
      Passed endsStatement none (' ' :: ds) := .char (by decide) (fun _ ↦ rfl) hds
  cases h with
  | ending hunbroken hfound =>
    refine .ending ?_ hfound
    rwa [breakOutside_cons (by simp)]
  | closing hpassed hfound => exact .closing (hpass hpassed) hfound
  | simple hpassed hfound hmore => exact .simple (hpass hpassed) hfound hmore
  | block hpassed hselectors hbody hmore => exact .block (hpass hpassed) hselectors hbody hmore

theorem reads_nil {found : List Statement} (h : Reads false [] found []) : found = [] := by
  have hfound : statements 1 false [] = some (found, []) := h.statements_eq 1 Nat.zero_lt_one
  obtain ⟨rfl, -⟩ := Prod.mk.inj (Option.some.inj hfound)
  rfl

/-- A block reads the same whatever stands behind its brace. -/
theorem Reads.append (h : Reads true cs found left) (cs' : List Char) :
    Reads true (cs ++ cs') found (left ++ cs') := by
  generalize hinner : true = inner at h
  induction h with
  | ending => cases hinner
  | closing hpassed hfound =>
    rw [List.append_assoc, List.cons_append]
    exact .closing hpassed hfound
  | simple hpassed hfound _ ih =>
    rw [List.append_assoc, List.cons_append]
    exact .simple hpassed hfound (ih hinner)
  | block hpassed hselectors _ _ ihbody ih =>
    rw [List.append_assoc, List.cons_append]
    exact .block hpassed hselectors (ihbody rfl) (ih hinner)

theorem Reads.openQuote_eq (h : Reads true cs found left) :
    openQuote none cs = openQuote none left := by
  generalize hinner : true = inner at h
  induction h with
  | ending => cases hinner
  | closing hpassed _ => simp [hpassed.openQuote_append, openQuote_cons, quoteAfter]
  | simple hpassed _ _ ih =>
    simpa [hpassed.openQuote_append, openQuote_cons, quoteAfter] using ih hinner
  | block hpassed _ _ _ ihbody ih =>
    simpa [hpassed.openQuote_append, openQuote_cons, quoteAfter, ihbody rfl] using ih hinner

theorem trim_append_blank (hc : Text.isBlank c = true) (cs : List Char) :
    Text.trim (cs ++ [c]) = Text.trim cs := by
  have hend (ds : List Char) : Text.dropEndWhile Text.isBlank (ds ++ [c]) =
      Text.dropEndWhile Text.isBlank ds := by
    simp [Text.dropEndWhile, hc]
  unfold Text.trim
  rw [List.dropWhile_append]
  split
  · rename_i hempty
    rw [List.isEmpty_iff.mp hempty, List.dropWhile_cons_of_pos hc]
    rfl
  · exact hend _

/-- A sheet without an open quote reads the same as the text of a block. -/
theorem Reads.enclose (h : Reads false cs found left) (hopen : openQuote none cs = none)
    (cs' : List Char) : Reads true (cs ++ ' ' :: '\x7d' :: cs') found cs' := by
  generalize hinner : false = inner at h
  induction h with
  | ending hunbroken hfound =>
    rename_i cs found
    have hpassed : Passed endsStatement none (cs ++ [' ']) :=
      .of_unbroken (by decide) (by decide) quotable_none hunbroken hopen
    rw [← trim_append_blank (c := ' ') (by decide)] at hfound
    have hclosing : Reads true (cs ++ [' '] ++ '\x7d' :: cs') found cs' := .closing hpassed hfound
    simpa using hclosing
  | closing => cases hinner
  | simple hpassed hfound _ ih =>
    rw [List.append_assoc, List.cons_append]
    exact .simple hpassed hfound
      (ih (by simpa [hpassed.openQuote_append, openQuote_cons, quoteAfter] using hopen) hinner)
  | block hpassed hselectors hbody _ _ ih =>
    rw [List.append_assoc, List.cons_append]
    exact .block hpassed hselectors (hbody.append _)
      (ih (by simpa [hpassed.openQuote_append, openQuote_cons, quoteAfter,
        hbody.openQuote_eq] using hopen) hinner)

/-- Neither a quote nor a block comment is open. -/
def Place.Ended (place : Place) : Prop := place = .text none ∨ place = .lineComment

/-- A sheet is read off its text without comments, and to its end. -/
theorem sheet?_eq_some_iff : sheet? cs = some found ↔
    (scan (.text none) cs).2.Ended ∧ Reads false (scan (.text none) cs).1 found [] := by
  have hstrip : ∀ ds, stripComments cs = some ds ↔
      (scan (.text none) cs).2.Ended ∧ (scan (.text none) cs).1 = ds := by
    intro ds
    unfold stripComments Place.Ended
    generalize scan (.text none) cs = scanned
    obtain ⟨stripped, place⟩ := scanned
    cases place with
    | text quote => cases quote <;> simp
    | blockComment => simp
    | lineComment => simp
  simp only [sheet?, Option.bind_eq_bind, Option.bind_eq_some_iff, hstrip, Option.pure_def,
    Option.some.injEq, Prod.exists]
  constructor
  · rintro ⟨ds, ⟨hended, rfl⟩, found, left, hfound, rfl⟩
    have hreads := reads_of_statements hfound
    exact ⟨hended, hreads.left_eq_nil ▸ hreads⟩
  · rintro ⟨hended, hreads⟩
    exact ⟨_, ⟨hended, rfl⟩, _, _, hreads.statements_eq _ (Nat.lt_succ_self _), rfl⟩

/-! ## The end of a block -/

/-- What stands behind the brace that closes the block around a text without comments, if so many
blocks inside it are open. -/
def behindBlock : (depth : ℕ) → (quote : Option Char) → List Char → Option (List Char)
  | _, _, [] => none
  | depth, quote, '\\' :: _ :: cs => behindBlock depth quote cs
  | depth, none, '\x7b' :: cs => behindBlock (depth + 1) none cs
  | 0, none, '\x7d' :: cs => some cs
  | depth + 1, none, '\x7d' :: cs => behindBlock depth none cs
  | depth, quote, c :: cs => behindBlock depth (quoteAfter quote c) cs

variable {depth : ℕ}

theorem behindBlock_cons (hback : c = '\\' → cs = [])
    (hopening : quote = none → c ≠ '\x7b') (hclosing : quote = none → c ≠ '\x7d') :
    behindBlock depth quote (c :: cs) = behindBlock depth (quoteAfter quote c) cs := by
  rw [behindBlock.eq_def]
  split <;> simp_all

theorem Passed.behindBlock_append (h : Passed endsStatement quote head) (cs : List Char) :
    behindBlock depth quote (head ++ cs) = behindBlock depth none cs := by
  induction h with
  | nil => rfl
  | escape c _ ih => simpa [behindBlock] using ih
  | @char quote c cs hback hfree _ ih =>
    rw [List.cons_append, behindBlock_cons (fun e ↦ (hback e).elim), ih]
    · rintro rfl rfl
      simp [endsStatement] at hfree
    · rintro rfl rfl
      simp [endsStatement] at hfree

/-- The brace at which the reading of a block ends is the one that closes it. -/
theorem Reads.behindBlock_eq (h : Reads true cs found left) (depth : ℕ) :
    behindBlock depth none cs = behindBlock depth none ('\x7d' :: left) := by
  generalize hinner : true = inner at h
  induction h generalizing depth with
  | ending => cases hinner
  | closing hpassed _ => rw [hpassed.behindBlock_append]
  | simple hpassed _ _ ih =>
    rw [hpassed.behindBlock_append, behindBlock_cons (by simp) (by simp) (by simp)]
    exact ih depth hinner
  | block hpassed _ _ _ ihbody ih =>
    rw [hpassed.behindBlock_append, behindBlock, ihbody (depth + 1) rfl, behindBlock]
    exact ih depth hinner

/-- A sign closes the block around it or leaves its end to what follows. -/
theorem behindBlock_char (depth : ℕ) (quote : Option Char) (c : Char) :
    (depth = 0 ∧ quote = none ∧ c = '\x7d') ∨ ∃ depth', ∀ cs, (c = '\\' → cs = []) →
      behindBlock depth quote (c :: cs) = behindBlock depth' (quoteAfter quote c) cs := by
  by_cases hopening : quote = none ∧ c = '\x7b'
  · obtain ⟨rfl, rfl⟩ := hopening
    exact .inr ⟨depth + 1, fun cs _ ↦ rfl⟩
  by_cases hclosing : quote = none ∧ c = '\x7d'
  · obtain ⟨rfl, rfl⟩ := hclosing
    cases depth with
    | zero => exact .inl ⟨rfl, rfl, rfl⟩
    | succ depth => exact .inr ⟨depth, fun cs _ ↦ rfl⟩
  exact .inr ⟨depth, fun cs hback ↦ behindBlock_cons hback (fun hnone e ↦ hopening ⟨hnone, e⟩)
    fun hnone e ↦ hclosing ⟨hnone, e⟩⟩

/-- The brace behind a text closes the block around the text, if so many blocks inside it are
open before the text. -/
structure Closes (depth : ℕ) (place : Place) (inside : List Char) : Prop where
  outside : (scan place (inside ++ ['\x7d'])).2 = .text none
  behind : behindBlock depth place.quote? (scan place (inside ++ ['\x7d'])).1 = some []

theorem Closes.step {depth' : ℕ} {place place' : Place} {inside : List Char}
    (h : Closes depth' place' inside) (piece shown : List Char)
    (hscan : scan place (piece ++ (inside ++ ['\x7d'])) =
      ahead shown (scan place' (inside ++ ['\x7d'])))
    (hbehind : ∀ ds, behindBlock depth place.quote? (shown ++ ds) =
      behindBlock depth' place'.quote? ds) :
    Closes depth place (piece ++ inside) := by
  constructor
  · rw [List.append_assoc, hscan]
    exact h.outside
  · rw [List.append_assoc, hscan, ahead_fst, hbehind]
    exact h.behind

/-- A brace that closes the block around a text without its comments is a brace of the text. -/
theorem exists_closes (place : Place)
    (h : behindBlock depth place.quote? (scan place cs).1 = some left) :
    ∃ inside rest, cs = inside ++ '\x7d' :: rest ∧ Closes depth place inside ∧
      left = (scan (.text none) rest).1 := by
  fun_induction scan place cs generalizing depth with
  | case1 place => simp [behindBlock] at h
  | case2 cs ih =>
    obtain ⟨inside, rest, rfl, hcloses, hleft⟩ := ih h
    exact ⟨'/' :: '*' :: inside, rest, rfl,
      hcloses.step ['/', '*'] [' '] rfl fun _ ↦ rfl, hleft⟩
  | case3 cs ih =>
    obtain ⟨inside, rest, rfl, hcloses, hleft⟩ := ih h
    exact ⟨'/' :: '/' :: inside, rest, rfl,
      hcloses.step ['/', '/'] [' '] rfl fun _ ↦ rfl, hleft⟩
  | case4 quote c cs ih =>
    obtain ⟨inside, rest, rfl, hcloses, hleft⟩ := ih (by simpa [behindBlock] using h)
    exact ⟨'\\' :: c :: inside, rest, rfl,
      hcloses.step ['\\', c] ['\\', c] (by simp [scan]) fun _ ↦ by
        simp [behindBlock, Place.quote?], hleft⟩
  | case5 quote c cs hblock hline hpair ih =>
    obtain ⟨rfl, rfl, rfl⟩ | ⟨depth', hstep⟩ := behindBlock_char depth quote c
    · obtain rfl : _ = left := by simpa [behindBlock] using h
      exact ⟨[], cs, rfl, ⟨rfl, rfl⟩, rfl⟩
    · rw [ahead_fst, List.singleton_append, Place.quote?,
        hstep _ fun e ↦ by rw [unpaired hpair e, scan]] at h
      obtain ⟨inside, rest, hcs, hcloses, hleft⟩ := ih h
      have hback : c ≠ '\\' := fun e ↦ by simpa [hcs] using unpaired hpair e
      have hnext : scan (.text quote) ([c] ++ (inside ++ ['\x7d'])) =
          ahead [c] (scan (.text (quoteAfter quote c)) (inside ++ ['\x7d'])) := by
        refine scan_text_cons (fun e ↦ (hback e).elim) fun hnone e ↦ ?_
        cases inside with
        | nil => simp
        | cons d ds =>
          constructor <;> rintro ⟨⟩
          · exact hblock _ hnone e hcs
          · exact hline _ hnone e hcs
      exact ⟨c :: inside, rest, by rw [hcs]; rfl,
        hcloses.step [c] [c] hnext fun ds ↦ hstep ds fun e ↦ (hback e).elim, hleft⟩
  | case6 cs ih =>
    obtain ⟨inside, rest, rfl, hcloses, hleft⟩ := ih h
    exact ⟨'*' :: '/' :: inside, rest, rfl,
      hcloses.step ['*', '/'] [] rfl fun _ ↦ rfl, hleft⟩
  | case7 c cs hend ih =>
    obtain ⟨inside, rest, rfl, hcloses, hleft⟩ := ih h
    have hnext : scan .blockComment ([c] ++ (inside ++ ['\x7d'])) =
        scan .blockComment (inside ++ ['\x7d']) := by
      refine scan_blockComment_cons fun e ↦ ?_
      cases inside with
      | nil => simp
      | cons d ds =>
        rintro ⟨⟩
        exact hend _ e rfl
    exact ⟨c :: inside, rest, rfl, hcloses.step [c] [] hnext fun _ ↦ rfl, hleft⟩
  | case8 cs ih =>
    obtain ⟨inside, rest, rfl, hcloses, hleft⟩ := ih h
    exact ⟨'\n' :: inside, rest, rfl,
      hcloses.step ['\n'] ['\n'] rfl fun _ ↦ rfl, hleft⟩
  | case9 c cs hnewline ih =>
    obtain ⟨inside, rest, rfl, hcloses, hleft⟩ := ih h
    have hnext : scan .lineComment ([c] ++ (inside ++ ['\x7d'])) =
        scan .lineComment (inside ++ ['\x7d']) := by
      rw [List.singleton_append, scan]
      exact hnewline
    exact ⟨c :: inside, rest, rfl, hcloses.step [c] [] hnext fun _ ↦ rfl, hleft⟩

theorem behindBlock_append (h : behindBlock depth quote cs = some left) (cs' : List Char) :
    behindBlock depth quote (cs ++ cs') = some (left ++ cs') := by
  fun_induction behindBlock depth quote cs with
  | case1 => simp at h
  | case2 depth quote c cs ih => simpa [behindBlock] using ih h
  | case3 depth cs ih => simpa [behindBlock] using ih h
  | case4 cs => simpa [behindBlock] using h
  | case5 depth cs ih => simpa [behindBlock] using ih h
  | case6 depth quote c cs hback hopening hclosing hclosing' ih =>
    have hlast : c ≠ '\\' := fun e ↦ by simp [unpaired hback e, behindBlock] at h
    rw [List.cons_append, behindBlock_cons (fun e ↦ (hlast e).elim) hopening, ih h]
    rintro hnone rfl
    cases depth with
    | zero => exact hclosing rfl hnone rfl
    | succ depth => exact hclosing' depth rfl hnone rfl

/-- Behind the brace that closes a block the text without comments goes on as if it began there. -/
theorem Closes.behindBlock_eq {inside : List Char} (h : Closes 0 (.text none) inside)
    (rest : List Char) :
    scan (.text none) (inside ++ '\x7d' :: rest) =
      ahead (scan (.text none) (inside ++ ['\x7d'])).1 (scan (.text none) rest) ∧
    behindBlock 0 none (scan (.text none) (inside ++ '\x7d' :: rest)).1 =
      some (scan (.text none) rest).1 := by
  have hscan : scan (.text none) (inside ++ '\x7d' :: rest) =
      ahead (scan (.text none) (inside ++ ['\x7d'])).1 (scan (.text none) rest) := by
    rw [scan_append_behind (by decide) (.text none) quotable_none, h.outside]
  refine ⟨hscan, ?_⟩
  rw [hscan]
  exact behindBlock_append h.behind _

/-! ## Well-formed statements -/

/-- Every rule has selectors, and every selector has a compound selector. -/
inductive Proper : List Statement → Prop
  | nil : Proper []
  | declare {ss : List Statement} (d : Declaration) : Proper ss → Proper (.declare d :: ss)
  | assign {ss : List Statement} (name value : List Char) :
      Proper ss → Proper (.assign name value :: ss)
  | rule {selectors : List Selector} {body ss : List Statement} :
      selectors ≠ [] → (∀ s ∈ selectors, s ≠ []) → Proper body → Proper ss →
      Proper (.rule selectors body :: ss)

theorem Proper.of_declaration {statement : Statement} {ss : List Statement}
    (hfound : declaration? head = some statement) (h : Proper ss) : Proper (statement :: ss) := by
  unfold declaration? at hfound
  split at hfound
  · cases hfound
  · dsimp only at hfound
    split at hfound
    · cases hfound
    · split at hfound
      · split at hfound
        · cases hfound
        · obtain rfl := Option.some.inj hfound
          exact .assign _ _ h
      · obtain rfl := Option.some.inj hfound
        exact .declare _ h

theorem Proper.of_simple {ss : List Statement} (hfound : simple? head = some found)
    (h : Proper ss) : Proper (found ++ ss) := by
  unfold simple? at hfound
  split at hfound
  · obtain rfl := Option.some.inj hfound
    exact h
  · obtain ⟨statement, hstatement, rfl⟩ := Option.map_eq_some_iff.mp hfound
    exact h.of_declaration hstatement

theorem selector?_ne_nil {s : Selector} (h : selector? cs = some s) : s ≠ [] := by
  rintro rfl
  unfold selector? at h
  split at h
  · cases h
  · contradiction

theorem selectors?_ne_nil {selectors : List Selector} (h : selectors? cs = some selectors) :
    selectors ≠ [] ∧ ∀ s ∈ selectors, s ≠ [] := by
  constructor
  · rintro rfl
    have hpieces := length_of_mapM h
    unfold commaPieces at hpieces
    split at hpieces
    · cases hpieces
    · split at hpieces <;> cases hpieces
  · intro s hs
    obtain ⟨piece, -, hpiece⟩ := exists_of_mem_mapM h hs
    exact selector?_ne_nil hpiece

theorem Reads.proper (h : Reads inner cs found left) : Proper found := by
  induction h with
  | ending _ hfound => simpa using Proper.nil.of_simple hfound
  | closing _ hfound => simpa using Proper.nil.of_simple hfound
  | simple _ hfound _ ih => exact ih.of_simple hfound
  | block _ hselectors _ _ ihbody ih =>
    obtain ⟨hsome, hnonempty⟩ := selectors?_ne_nil hselectors
    exact .rule hsome hnonempty ihbody ih

end IceCube.Stylesheet.Reader
