import IceCube.Config.Load
import IceCube.Proofs.FileTree.Replaced
import IceCube.Proofs.Json.RoundTrip

/-!
# Documents in files

A text file is read with every line end turned into a line feed, so a text comes back as it was
written if there is no carriage return in it.  The text of a document has none: of the control
characters only line feeds are written as they are.
-/

namespace IceCube

/-! ## Text files -/

theorem Utf8.decode_encode (s : String) : decode (encode s) = some s := by
  have hbytes : (⟨(encode s).toArray⟩ : ByteArray) = s.toUTF8 := by
    rw [encode, Array.toArray_toList]
  rw [decode, hbytes, String.toUTF8_eq_toByteArray, String.fromUTF8?, dif_pos s.isValidUTF8]
  rfl

theorem Utf8.encode_of_decode {b : Bytes} {s : String} (h : decode b = some s) : encode s = b := by
  rw [decode, String.fromUTF8?] at h
  split at h <;> cases h
  rfl

theorem Text.unify_eq_self {s : String} (h : '\r' ∉ s.toList) : unify s = s := by
  have hchars : ∀ cs : List Char, '\r' ∉ cs → unifyNewlines cs = cs := by
    intro cs hcs
    induction cs with
    | nil => rfl
    | cons c cs ih =>
      rw [List.mem_cons, not_or] at hcs
      obtain ⟨hc, hcs⟩ := hcs
      rw [unifyNewlines.eq_def]
      split
      · contradiction
      · rename_i heq
        exact absurd (List.cons.inj heq).1.symm hc
      · rename_i heq
        exact absurd (List.cons.inj heq).1.symm hc
      · rename_i heq
        obtain ⟨rfl, rfl⟩ := List.cons.inj heq
        rw [ih hcs]
  rw [unify, hchars _ h, String.ofList_toList]

theorem Config.readText_eq_ok_iff {t : FileTree} {p : Path} {text : String} :
    Config.readText t p = .ok text ↔
      ∃ content s, t.read p = .ok content ∧ Utf8.decode content = some s ∧ Text.unify s = text := by
  unfold Config.readText
  cases t.read p with
  | error f => simp [Except.mapError, bind, Except.bind]
  | ok b =>
    cases hb : Utf8.decode b <;> simp [Except.mapError, bind, Except.bind, hb, pure, Except.pure]

theorem Config.readText_eq_error_iff {t : FileTree} {p : Path} {e : Error} :
    Config.readText t p = .error e ↔
      (∃ f, t.read p = .error f ∧ e = .fault f) ∨
        ∃ bytes, t.read p = .ok bytes ∧ Utf8.decode bytes = none ∧ e = .notText := by
  unfold Config.readText
  cases t.read p with
  | error f => simp [Except.mapError, bind, Except.bind, eq_comm]
  | ok bytes =>
    cases hdecode : Utf8.decode bytes <;>
      simp [Except.mapError, bind, Except.bind, hdecode, pure, Except.pure, eq_comm]

/-- A text file holds the text that was written into it. -/
theorem Config.readText_of_read {files : FileTree} {p : Path} {s : String} (h : '\r' ∉ s.toList)
    (hread : files.read p = .ok (Utf8.encode s)) : readText files p = .ok s := by
  simp only [readText, hread, Except.mapError, Utf8.decode_encode, bind, Except.bind]
  rw [Text.unify_eq_self h]
  rfl

/-! ## Characters of a written document -/

namespace Json

/-- No control character but a line feed. -/
def Printed (c : Char) : Prop := c = '\n' ∨ 0x20 ≤ c.toNat

theorem Printed.ne_return {c : Char} (h : Printed c) : c ≠ '\r' := by
  rintro rfl
  rcases h with h | h <;> exact absurd h (by decide)

theorem printed_of_isDigit {c : Char} (h : c.isDigit = true) : Printed c := by
  refine .inr ?_
  have h0 := (Char.isDigit_iff_toNat.mp h).1
  exact le_trans (by decide) h0

theorem printed_hexDigits (width n : Nat) : ∀ c ∈ Text.hexDigits width n, Printed c := by
  intro c hc
  obtain ⟨d, hd, rfl⟩ := Text.exists_of_mem_hexDigits hc
  refine .inr ?_
  interval_cases d <;> decide

namespace Writer

theorem printed_codeUnits (c : Char) : ∀ d ∈ codeUnits c, Printed d := by
  have hunicode : ∀ n, ∀ d ∈ unicode n, Printed d := by
    intro n
    rw [unicode, List.forall_mem_cons, List.forall_mem_cons]
    exact ⟨.inr (by decide), .inr (by decide), printed_hexDigits 4 n⟩
  unfold codeUnits
  dsimp only
  split
  · exact hunicode _
  · exact List.forall_mem_append.mpr ⟨hunicode _, hunicode _⟩

theorem printed_char (escaping : Escaping) (c : Char) : ∀ d ∈ char escaping c, Printed d := by
  rcases char_forms escaping c with ⟨l, hl, -, h⟩ | h | ⟨h, -, -, hc⟩
  · have hletter : Printed l := by
      unfold Reader.escaped? at hl
      split at hl <;> first | exact .inr (by decide) | simp at hl
    rw [h, List.forall_mem_cons, List.forall_mem_singleton]
    exact ⟨.inr (by decide), hletter⟩
  · rw [h]
    exact printed_codeUnits c
  · rw [h, List.forall_mem_singleton]
    exact .inr (Nat.not_lt.mp hc)

theorem printed_string (escaping : Escaping) (s : String) :
    ∀ d ∈ string escaping s, Printed d := by
  rw [string, List.forall_mem_cons, List.forall_mem_append, List.forall_mem_singleton]
  refine ⟨.inr (by decide), fun d hd ↦ ?_, .inr (by decide)⟩
  obtain ⟨c, -, hc⟩ := List.mem_flatMap.mp hd
  exact printed_char escaping c d hc

theorem printed_minus (negative : Bool) : ∀ c ∈ Reader.minus negative, Printed c := by
  cases negative with
  | false => simp [Reader.minus]
  | true => exact List.forall_mem_singleton.mpr (.inr (by decide))

theorem printed_digits {ds : List Char} (h : ∀ c ∈ ds, c.isDigit = true) : ∀ c ∈ ds, Printed c :=
  fun c hc ↦ printed_of_isDigit (h c hc)

theorem printed_int (i : Int) : ∀ c ∈ (toString i).toList, Printed c := by
  rw [Reader.toList_toString_int, List.forall_mem_append]
  exact ⟨printed_minus _, printed_digits (Number.digits_toDigits _).2⟩

theorem printed_float (x : Number.Binary64) : ∀ c ∈ Number.json.text x, Printed c := by
  cases x with
  | nan =>
    have h : ∀ c ∈ ['N', 'a', 'N'], Printed c := by
      simp [Printed]
    exact h
  | infinite negative =>
    refine List.forall_mem_append.mpr ⟨printed_minus negative, ?_⟩
    have h : ∀ c ∈ ['I', 'n', 'f', 'i', 'n', 'i', 't', 'y'], Printed c := by
      simp [Printed]
    exact h
  | finite negative m e =>
    obtain ⟨d, cs, ⟨ds, fs, e', hds, hfs, he, -, rfl, -⟩, htext, -⟩ :=
      Number.json.fractional_text negative m e
    rw [htext, List.forall_mem_append, List.forall_mem_append, List.forall_mem_append]
    refine ⟨printed_minus negative, printed_digits hds.digits.2, ?_, ?_⟩
    · unfold Reader.point
      split
      · simp
      · exact List.forall_mem_cons.mpr ⟨.inr (by decide), printed_digits hfs⟩
    · cases e' with
      | none => simp [Reader.exponent]
      | some x =>
        rw [Reader.exponent, List.forall_mem_cons, List.forall_mem_cons]
        refine ⟨.inr (by decide), ?_, printed_digits (he x rfl).2⟩
        cases x.1 <;> exact .inr (by decide)

theorem printed_newLine (width level : Nat) : ∀ c ∈ newLine width level, Printed c := by
  rw [newLine, List.forall_mem_cons]
  refine ⟨.inl rfl, fun c hc ↦ ?_⟩
  rw [(List.mem_replicate.mp hc).2]
  exact .inr (by decide)

theorem printed_intercalate {sep : List Char} (hsep : ∀ c ∈ sep, Printed c)
    {parts : List (List Char)} (h : ∀ p ∈ parts, ∀ c ∈ p, Printed c) :
    ∀ c ∈ List.intercalate sep parts, Printed c := by
  induction parts with
  | nil => simp [List.intercalate]
  | cons p ps ih =>
    obtain ⟨hp, hps⟩ := List.forall_mem_cons.mp h
    cases ps with
    | nil => rwa [Reader.intercalate_one]
    | cons q qs =>
      rw [Reader.intercalate_more _ _ (List.cons_ne_nil q qs), List.forall_mem_append,
        List.forall_mem_append]
      exact ⟨hp, hsep, ih hps⟩

theorem printed_enclose (spread : Spread) (level : Nat) {o c : Char} (ho : Printed o)
    (hc : Printed c) {parts : List (List Char)} (h : ∀ p ∈ parts, ∀ c ∈ p, Printed c) :
    ∀ d ∈ enclose spread level o c parts, Printed d := by
  unfold enclose
  split
  · exact List.forall_mem_cons.mpr ⟨ho, List.forall_mem_singleton.mpr hc⟩
  · cases spread with
    | oneLine =>
      have hsep : ∀ d ∈ [',', ' '], Printed d := by simp [Printed]
      rw [List.forall_mem_cons, List.forall_mem_append, List.forall_mem_singleton]
      exact ⟨ho, printed_intercalate hsep h, hc⟩
    | indented width =>
      have hsep : ∀ d ∈ ',' :: newLine width (level + 1), Printed d :=
        List.forall_mem_cons.mpr ⟨.inr (by decide), printed_newLine width (level + 1)⟩
      rw [List.forall_mem_cons, List.forall_mem_append, List.forall_mem_append,
        List.forall_mem_append, List.forall_mem_singleton]
      exact ⟨ho, ⟨⟨printed_newLine width (level + 1), printed_intercalate hsep h⟩,
        printed_newLine width level⟩, hc⟩

mutual

/-- A written document has no control characters but line feeds. -/
theorem printed_value (style : Style) (level : Nat) (v : Json) :
    ∀ c ∈ value style level v, Printed c := by
  match v with
  | .null =>
    have h : ∀ c ∈ ['n', 'u', 'l', 'l'], Printed c := by simp [Printed]
    exact h
  | .bool true =>
    have h : ∀ c ∈ ['t', 'r', 'u', 'e'], Printed c := by simp [Printed]
    exact h
  | .bool false =>
    have h : ∀ c ∈ ['f', 'a', 'l', 's', 'e'], Printed c := by simp [Printed]
    exact h
  | .int i => exact printed_int i
  | .float x => exact printed_float x
  | .str s => exact printed_string style.escaping s
  | .arr vs =>
    exact printed_enclose style.spread level (.inr (by decide)) (.inr (by decide))
      (printed_items style (level + 1) vs)
  | .obj ms =>
    exact printed_enclose style.spread level (.inr (by decide)) (.inr (by decide))
      (printed_members style (level + 1) ms)

theorem printed_items (style : Style) (level : Nat) (vs : List Json) :
    ∀ p ∈ items style level vs, ∀ c ∈ p, Printed c := by
  match vs with
  | [] => simp [items]
  | v :: vs =>
    rw [items, List.forall_mem_cons]
    exact ⟨printed_value style level v, printed_items style level vs⟩

theorem printed_members (style : Style) (level : Nat) (ms : List (String × Json)) :
    ∀ p ∈ members style level ms, ∀ c ∈ p, Printed c := by
  match ms with
  | [] => simp [members]
  | (name, v) :: ms =>
    have hcolon : ∀ c ∈ [':', ' '], Printed c := by simp [Printed]
    rw [members, List.forall_mem_cons, List.forall_mem_append, List.forall_mem_append]
    exact ⟨⟨⟨printed_string style.escaping name, hcolon⟩, printed_value style level v⟩,
      printed_members style level ms⟩

end

end Writer

/-- A document with a line feed after it comes back from a file as it was written. -/
theorem readText_write {files : FileTree} {p : Path} (style : Style) (v : Json)
    (h : files.read p = .ok (Utf8.encode (v.write style ++ "\n"))) :
    Config.readText files p = .ok (v.write style ++ "\n") := by
  refine Config.readText_of_read ?_ h
  intro hreturn
  rw [String.toList_append, List.mem_append] at hreturn
  rcases hreturn with hreturn | hreturn
  · rw [write, String.toList_ofList] at hreturn
    exact (Writer.printed_value style 0 v _ hreturn).ne_return rfl
  · simp at hreturn

end Json

end IceCube
