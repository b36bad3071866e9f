import IceCube.Proofs.Json.Literal
import IceCube.Proofs.Number.Text
import IceCube.Proofs.Table

/-!
# Documents read back

A written document is read back whole, whatever its style.  Its texts come back as they were, and a
number with a fraction or an exponent comes back as the number that its digits denote.
-/

namespace IceCube

open Number (Binary64)

/-! ## What is read back -/

/-- The number that the text of a number denotes. -/
def Number.Binary64.reread (x : Binary64) : Binary64 :=
  match Json.Reader.scalar? (Number.json.text x) with
  | some (.float y, _) => y
  | _ => x

namespace Json

mutual

/-- The document that the text of a document denotes. -/
def reread : Json → Json
  | .float x => .float x.reread
  | .arr vs => .arr (rereadItems vs)
  | .obj ms => .obj (rereadMembers ms)
  | v => v

/-- The items that the texts of items denote. -/
def rereadItems : List Json → List Json
  | [] => []
  | v :: vs => v.reread :: rereadItems vs

/-- The members that the texts of members denote. -/
def rereadMembers : List (String × Json) → List (String × Json)
  | [] => []
  | (name, v) :: ms => (name, v.reread) :: rereadMembers ms

end

@[simp] theorem reread_null : reread .null = .null := by rw [reread] <;> simp

@[simp] theorem reread_str (s : String) : reread (.str s) = .str s := by rw [reread] <;> simp

@[simp] theorem reread_obj (ms : List (String × Json)) :
    reread (.obj ms) = .obj (rereadMembers ms) := by rw [reread]

theorem rereadMembers_eq_map (ms : List (String × Json)) :
    rereadMembers ms = ms.map fun m ↦ (m.1, m.2.reread) := by
  induction ms with
  | nil => rfl
  | cons m ms ih =>
    obtain ⟨name, v⟩ := m
    rw [rereadMembers, ih]
    rfl

namespace Reader

theorem scalar?_float (x : Binary64) {rest : List Char} (hrest : Delimited rest) :
    scalar? (Number.json.text x ++ rest) = some (.float x.reread, rest) := by
  obtain ⟨y, hy⟩ := scalar?_text x
  have hy' := hy [] delimited_nil
  rw [List.append_nil] at hy'
  rw [hy rest hrest, Binary64.reread, hy']

/-! ## Spaces -/

/-- A text of spaces. -/
def Spaces (cs : List Char) : Prop := ∀ c ∈ cs, isSpace c = true

theorem skip_append {sep cs : List Char} (hsep : Spaces sep)
    (hcs : ∀ c ∈ cs.head?, isSpace c = false) : skip (sep ++ cs) = cs := by
  rw [skip, List.dropWhile_append_of_pos hsep]
  cases cs with
  | nil => rfl
  | cons c cs => simp [hcs c (by simp)]

theorem Spaces.delimited {sep cs : List Char} (hsep : Spaces sep) (h : Delimited cs) :
    Delimited (sep ++ cs) := by
  cases sep with
  | nil => exact h
  | cons s sep =>
    have hs := hsep s (by simp)
    simp only [isSpace, Bool.or_eq_true, beq_iff_eq] at hs
    rcases hs with ((rfl | rfl) | rfl) | rfl <;> exact delimited_cons rfl (by decide) (by decide)
      (by decide)

/-! ## First characters -/

/-- What a word or a number starts with. -/
theorem scalar?_eq_none {c : Char} (hdigit : c.isDigit = false)
    (h : c ∉ ['n', 't', 'f', 'N', 'I', '-']) (cs : List Char) : scalar? (c :: cs) = none := by
  have hzero : c ≠ '0' := by
    rintro rfl
    simp at hdigit
  simp only [List.mem_cons, List.not_mem_nil, or_false, not_or] at h
  obtain ⟨hn, ht, hf, hN, hI, hm⟩ := h
  have hwhole : wholePart? (c :: cs) = none := by
    rw [wholePart?.eq_def]
    split
    · rename_i heq
      exact absurd (List.cons.inj heq).1 hzero
    · simp [digits, hdigit]
  simp [scalar?, afterWord?, number?, hwhole, Ne.symm hn, Ne.symm ht, Ne.symm hf, Ne.symm hN,
    Ne.symm hI, Ne.symm hm, hm]

/-- A text that starts as a written value does: with no space, closing bracket or byte order
mark. -/
def Opens (cs : List Char) : Prop :=
  ∃ c t, cs = c :: t ∧ isSpace c = false ∧ c ≠ ']' ∧ c ≠ '\ufeff'

theorem Opens.append {cs : List Char} (h : Opens cs) (ds : List Char) : Opens (cs ++ ds) := by
  obtain ⟨c, t, rfl, hc⟩ := h
  exact ⟨c, t ++ ds, rfl, hc⟩

theorem Opens.length_pos {cs : List Char} (h : Opens cs) : 0 < cs.length := by
  obtain ⟨c, t, rfl, -⟩ := h
  simp

/-- A word or a number starts with a character that starts nothing else. -/
theorem opens_of_scalar {cs : List Char} {step : Json × List Char} (h : scalar? cs = some step) :
    Opens cs ∧ ∀ t, cs ≠ '"' :: t ∧ cs ≠ '[' :: t ∧ cs ≠ '\x7b' :: t := by
  cases cs with
  | nil => simp [scalar?, afterWord?, number?, wholePart?, digits] at h
  | cons c t =>
    have hne : ∀ d : Char, d.isDigit = false → d ∉ ['n', 't', 'f', 'N', 'I', '-'] → c ≠ d := by
      rintro d hd hmem rfl
      simp [scalar?_eq_none hd hmem] at h
    have hspace : isSpace c = false := by
      simp [isSpace, hne ' ' rfl (by decide), hne '\t' rfl (by decide), hne '\n' rfl (by decide),
        hne '\r' rfl (by decide)]
    refine ⟨⟨c, t, rfl, hspace, hne ']' rfl (by decide), hne '\ufeff' rfl (by decide)⟩,
      fun u ↦ ⟨?_, ?_, ?_⟩⟩
    · exact fun heq ↦ hne '"' rfl (by decide) (List.cons.inj heq).1
    · exact fun heq ↦ hne '[' rfl (by decide) (List.cons.inj heq).1
    · exact fun heq ↦ hne '\x7b' rfl (by decide) (List.cons.inj heq).1

theorem value_of_scalar {cs : List Char} {step : Json × List Char} (h : scalar? cs = some step)
    (fuel : Nat) : value (fuel + 1) cs = .ok step := by
  have hne := (opens_of_scalar h).2
  rw [value.eq_def]
  dsimp only
  split
  · exact absurd rfl (hne _).1
  · exact absurd rfl (hne _).2.1
  · exact absurd rfl (hne _).2.2
  · rw [h]

/-! ## How written values start -/

theorem opens_write (style : Style) (level : Nat) (v : Json) :
    Opens (Writer.value style level v) := by
  have henclose : ∀ (o c : Char) (parts : List (List Char)), ∃ t,
      Writer.enclose style.spread level o c parts = o :: t := by
    intro o c parts
    unfold Writer.enclose
    split
    · exact ⟨_, rfl⟩
    · cases style.spread <;> exact ⟨_, rfl⟩
  cases v with
  | null => exact ⟨'n', _, rfl, rfl, by decide, by decide⟩
  | bool b =>
    cases b with
    | false => exact ⟨'f', _, rfl, rfl, by decide, by decide⟩
    | true => exact ⟨'t', _, rfl, rfl, by decide, by decide⟩
  | int i =>
    have h := scalar?_int i delimited_nil
    rw [List.append_nil] at h
    exact (opens_of_scalar h).1
  | float x =>
    have h := scalar?_float x delimited_nil
    rw [List.append_nil] at h
    exact (opens_of_scalar h).1
  | str s => exact ⟨'"', _, rfl, rfl, by decide, by decide⟩
  | arr vs =>
    obtain ⟨t, ht⟩ := henclose '[' ']' (Writer.items style (level + 1) vs)
    exact ⟨'[', t, ht, rfl, by decide, by decide⟩
  | obj ms =>
    obtain ⟨t, ht⟩ := henclose '\x7b' '\x7d' (Writer.members style (level + 1) ms)
    exact ⟨'\x7b', t, ht, rfl, by decide, by decide⟩

/-! ## Brackets -/

theorem spaces_newLine (width level : Nat) : Spaces (Writer.newLine width level) := by
  intro c hc
  rcases List.mem_cons.mp hc with rfl | hc
  · rfl
  · rw [(List.mem_replicate.mp hc).2]
    rfl

/-- Parts between brackets stand apart by commas and spaces. -/
theorem enclose_eq (spread : Spread) (level : Nat) (o c : Char) {parts : List (List Char)}
    (h : parts ≠ []) : ∃ lead sep tail, Spaces lead ∧ Spaces sep ∧ Spaces tail ∧
      Writer.enclose spread level o c parts =
        o :: (lead ++ (List.intercalate (',' :: sep) parts ++ (tail ++ [c]))) := by
  have hempty : parts.isEmpty = false := by simpa using h
  cases spread with
  | oneLine =>
    exact ⟨[], [' '], [], by simp [Spaces], by simp [Spaces, isSpace], by simp [Spaces],
      by simp [Writer.enclose, hempty]⟩
  | indented width =>
    exact ⟨_, _, _, spaces_newLine width (level + 1), spaces_newLine width (level + 1),
      spaces_newLine width level, by simp [Writer.enclose, hempty]⟩

/-! ## Steps of the reader -/

section Steps

variable {fuel : Nat} {cs rest more : List Char} {v : Json}

theorem value_arr {lead : List Char} {vs : List Json} (hlead : Spaces lead) (hcs : Opens cs)
    (h : items fuel cs = .ok (vs, rest)) :
    value (fuel + 1) ('[' :: (lead ++ cs)) = .ok (.arr vs, rest) := by
  obtain ⟨c, t, rfl, hspace, hclose, -⟩ := hcs
  rw [value, skip_append hlead (by simpa using hspace)]
  split
  · rename_i heq
    exact absurd (List.cons.inj heq).1 hclose
  · rw [h]
    rfl

theorem value_obj {lead : List Char} {ms : List (String × Json)} (hlead : Spaces lead)
    (h : members fuel ('"' :: cs) = .ok (ms, rest)) :
    value (fuel + 1) ('\x7b' :: (lead ++ '"' :: cs)) = .ok (.obj ms, rest) := by
  rw [value, skip_append hlead (by simp [isSpace])]
  split
  · rename_i heq
    exact absurd (List.cons.inj heq).1 (by decide)
  · rw [h]
    rfl

theorem items_one (hv : value fuel cs = .ok (v, rest)) (hskip : skip rest = ']' :: more) :
    items (fuel + 1) cs = .ok ([v], more) := by
  rw [items.eq_def]
  simp only [hv, hskip, bind, Except.bind]
  rfl

theorem items_more {vs : List Json} {last : List Char} (hv : value fuel cs = .ok (v, rest))
    (hskip : skip rest = ',' :: more) (h : items fuel (skip more) = .ok (vs, last)) :
    items (fuel + 1) cs = .ok (v :: vs, last) := by
  rw [items.eq_def]
  simp only [hv, hskip, h, bind, Except.bind]
  rfl

variable {name : String} {afterName : List Char}

theorem members_one (hname : string cs = .ok (name, afterName))
    (hcs : ∃ t, cs = '"' :: t) (hcolon : skip afterName = ':' :: rest) {after : List Char}
    (hv : value fuel (skip rest) = .ok (v, after)) (hskip : skip after = '\x7d' :: more) :
    members (fuel + 1) cs = .ok ([(name, v)], more) := by
  obtain ⟨t, rfl⟩ := hcs
  rw [members.eq_def]
  simp only [hname, hcolon, hv, hskip, bind, Except.bind]
  rfl

theorem members_more {ms : List (String × Json)} {last : List Char}
    (hname : string cs = .ok (name, afterName))
    (hcs : ∃ t, cs = '"' :: t) (hcolon : skip afterName = ':' :: rest) {after : List Char}
    (hv : value fuel (skip rest) = .ok (v, after)) (hskip : skip after = ',' :: more)
    (h : members fuel (skip more) = .ok (ms, last)) :
    members (fuel + 1) cs = .ok ((name, v) :: ms, last) := by
  obtain ⟨t, rfl⟩ := hcs
  rw [members.eq_def]
  simp only [hname, hcolon, hv, hskip, h, bind, Except.bind]
  rfl

end Steps

/-! ## Whole values -/

theorem intercalate_one (sep part : List Char) : List.intercalate sep [part] = part := by
  simp [List.intercalate]

theorem intercalate_more (sep part : List Char) {parts : List (List Char)} (h : parts ≠ []) :
    List.intercalate sep (part :: parts) = part ++ (sep ++ List.intercalate sep parts) := by
  obtain ⟨p, ps, rfl⟩ := List.exists_cons_of_ne_nil h
  simp [List.intercalate]

theorem intercalate_cons (sep part : List Char) (parts : List (List Char)) :
    ∃ t, List.intercalate sep (part :: parts) = part ++ t := by
  cases parts with
  | nil => exact ⟨[], by simp⟩
  | cons p ps => exact ⟨_, intercalate_more sep part (List.cons_ne_nil p ps)⟩

theorem items_ne_nil (style : Style) (level : Nat) (v : Json) (vs : List Json) :
    Writer.items style level (v :: vs) ≠ [] := by
  rw [Writer.items]
  exact List.cons_ne_nil _ _

theorem opens_items (style : Style) (level : Nat) (sep : List Char) (v : Json) (vs : List Json) :
    Opens (List.intercalate sep (Writer.items style level (v :: vs))) := by
  obtain ⟨t, ht⟩ := intercalate_cons sep (Writer.value style level v) (Writer.items style level vs)
  rw [Writer.items, ht]
  exact (opens_write style level v).append t

theorem members_ne_nil (style : Style) (level : Nat) (m : String × Json)
    (ms : List (String × Json)) : Writer.members style level (m :: ms) ≠ [] := by
  obtain ⟨name, v⟩ := m
  rw [Writer.members]
  exact List.cons_ne_nil _ _

/-- Written members start with the quote of a name. -/
theorem quote_members (style : Style) (level : Nat) (sep : List Char) (m : String × Json)
    (ms : List (String × Json)) :
    ∃ t, List.intercalate sep (Writer.members style level (m :: ms)) = '"' :: t := by
  obtain ⟨name, v⟩ := m
  obtain ⟨t, ht⟩ := intercalate_cons sep (Writer.string style.escaping name ++ [':', ' ']
    ++ Writer.value style level v) (Writer.members style level ms)
  exact ⟨_, by rw [Writer.members, ht, Writer.string]; rfl⟩

theorem quote_string (escaping : Escaping) (name : String) (cs : List Char) :
    ∃ t, Writer.string escaping name ++ cs = '"' :: t := ⟨_, rfl⟩

/-- One space stands between the colon of a member and its value. -/
theorem skip_space_write (style : Style) (level : Nat) (v : Json) (cs : List Char) :
    skip (' ' :: (Writer.value style level v ++ cs)) = Writer.value style level v ++ cs := by
  obtain ⟨c, t, hc, hspace, -⟩ := opens_write style level v
  rw [hc]
  simp [skip, isSpace] at hspace ⊢
  simp [hspace]

theorem delimited_mark {c : Char} (hc : c = ',' ∨ c = ']' ∨ c = '\x7d') (cs : List Char) :
    Delimited (c :: cs) := by
  rcases hc with rfl | rfl | rfl <;> exact delimited_cons rfl (by decide) (by decide) (by decide)

/-- What comes after an item or a member does not continue a numeral. -/
theorem delimited_after {tail : List Char} (htail : Spaces tail) {c : Char}
    (hc : c = ',' ∨ c = ']' ∨ c = '\x7d') (cs : List Char) : Delimited (tail ++ c :: cs) :=
  htail.delimited (delimited_mark hc cs)

-- Inside brackets the reader has as much fuel as there are characters, so all of them can be read
-- with what the characters before them leave.
mutual

/-- A written value reads back, whatever follows that does not continue it. -/
theorem value_write (style : Style) (level : Nat) (v : Json) (fuel : Nat) (rest : List Char)
    (hfuel : (Writer.value style level v).length < fuel) (hrest : Delimited rest) :
    value fuel (Writer.value style level v ++ rest) = .ok (v.reread, rest) := by
  obtain ⟨fuel, rfl⟩ := Nat.exists_eq_add_one_of_ne_zero (Nat.ne_of_gt (Nat.zero_lt_of_lt hfuel))
  match v with
  | .null => exact value_of_scalar (by simp [Writer.value, scalar?, afterWord?, reread]) fuel
  | .bool b =>
    exact value_of_scalar (by cases b <;> simp [Writer.value, scalar?, afterWord?, reread]) fuel
  | .int i => exact value_of_scalar (by simpa [Writer.value, reread] using scalar?_int i hrest) fuel
  | .float x =>
    exact value_of_scalar (by simpa [Writer.value, reread] using scalar?_float x hrest) fuel
  | .str s =>
    have h := string_write style.escaping s rest
    rw [Writer.value, Writer.string, List.cons_append] at *
    rw [value, h]
    rfl
  | .arr [] =>
    simp [Writer.value, Writer.items, Writer.enclose, value, skip, isSpace, reread, rereadItems]
  | .arr (v :: vs) =>
    obtain ⟨lead, sep, tail, hlead, hsep, htail, heq⟩ :=
      enclose_eq style.spread level '[' ']' (items_ne_nil style (level + 1) v vs)
    rw [Writer.value, heq] at hfuel ⊢
    simp only [List.length_cons, List.length_append, List.length_nil] at hfuel
    have hitems := items_write style (level + 1) hsep htail v vs fuel rest (by omega)
    have hopens := (opens_items style (level + 1) (',' :: sep) v vs).append (tail ++ ']' :: rest)
    simpa [reread] using value_arr hlead hopens hitems
  | .obj [] =>
    simp [Writer.value, Writer.members, Writer.enclose, value, skip, isSpace, reread,
      rereadMembers]
  | .obj (m :: ms) =>
    obtain ⟨lead, sep, tail, hlead, hsep, htail, heq⟩ :=
      enclose_eq style.spread level '\x7b' '\x7d' (members_ne_nil style (level + 1) m ms)
    rw [Writer.value, heq] at hfuel ⊢
    simp only [List.length_cons, List.length_append, List.length_nil] at hfuel
    have hmembers := members_write style (level + 1) hsep htail m ms fuel rest (by omega)
    obtain ⟨t, ht⟩ := quote_members style (level + 1) (',' :: sep) m ms
    rw [ht] at hmembers ⊢
    simpa [reread] using value_obj hlead hmembers
termination_by fuel

/-- Written items read back, up to and with the closing bracket. -/
theorem items_write (style : Style) (level : Nat) {sep tail : List Char} (hsep : Spaces sep)
    (htail : Spaces tail) (v : Json) (vs : List Json) (fuel : Nat) (rest : List Char)
    (hfuel : (List.intercalate (',' :: sep) (Writer.items style level (v :: vs))).length + 1
      < fuel) :
    items fuel (List.intercalate (',' :: sep) (Writer.items style level (v :: vs))
      ++ (tail ++ ']' :: rest)) = .ok (rereadItems (v :: vs), rest) := by
  obtain ⟨fuel, rfl⟩ := Nat.exists_eq_add_one_of_ne_zero (Nat.ne_of_gt (Nat.zero_lt_of_lt hfuel))
  match vs with
  | [] =>
    simp only [Writer.items, intercalate_one] at hfuel ⊢
    have hv := value_write style level v fuel (tail ++ ']' :: rest) (by omega)
      (delimited_after htail (.inr (.inl rfl)) rest)
    exact items_one hv (skip_append htail (by simp [isSpace]))
  | v' :: vs =>
    rw [Writer.items, intercalate_more _ _ (items_ne_nil style level v' vs)] at hfuel ⊢
    have hpos := (opens_write style level v).length_pos
    simp only [List.length_append, List.length_cons] at hfuel
    have hv := value_write style level v fuel (',' :: (sep ++ (List.intercalate (',' :: sep)
      (Writer.items style level (v' :: vs)) ++ (tail ++ ']' :: rest)))) (by omega)
      (delimited_mark (.inl rfl) _)
    have hmore := items_write style level hsep htail v' vs fuel rest (by omega)
    obtain ⟨c, t, hc, hspace, -⟩ := opens_items style level (',' :: sep) v' vs
    rw [hc] at hv hmore ⊢
    simp only [List.append_assoc, List.cons_append] at hv hmore ⊢
    have hskip : skip (sep ++ c :: (t ++ (tail ++ ']' :: rest))) = c :: (t ++ (tail ++ ']' :: rest))
      := skip_append hsep (by simpa using hspace)
    rw [← hskip] at hmore
    exact items_more hv (by simp [skip, isSpace]) hmore
termination_by fuel

/-- Written members read back, up to and with the closing brace. -/
theorem members_write (style : Style) (level : Nat) {sep tail : List Char} (hsep : Spaces sep)
    (htail : Spaces tail) (m : String × Json) (ms : List (String × Json)) (fuel : Nat)
    (rest : List Char)
    (hfuel : (List.intercalate (',' :: sep) (Writer.members style level (m :: ms))).length + 1
      < fuel) :
    members fuel (List.intercalate (',' :: sep) (Writer.members style level (m :: ms))
      ++ (tail ++ '\x7d' :: rest)) = .ok (rereadMembers (m :: ms), rest) := by
  obtain ⟨fuel, rfl⟩ := Nat.exists_eq_add_one_of_ne_zero (Nat.ne_of_gt (Nat.zero_lt_of_lt hfuel))
  match m, ms with
  | (name, v), [] =>
    simp only [Writer.members, intercalate_one, List.length_append, List.length_cons] at hfuel ⊢
    have hv := value_write style level v fuel (tail ++ '\x7d' :: rest) (by omega)
      (delimited_after htail (.inr (.inr rfl)) rest)
    rw [← skip_space_write style level] at hv
    simp only [List.append_assoc, List.cons_append, List.nil_append]
    exact members_one (string_write style.escaping name _) (quote_string _ name _)
      (by simp [skip, isSpace]) hv (skip_append htail (by simp [isSpace]))
  | (name, v), m' :: ms =>
    rw [Writer.members, intercalate_more _ _ (members_ne_nil style level m' ms)] at hfuel ⊢
    simp only [List.length_append, List.length_cons] at hfuel
    have hv := value_write style level v fuel (',' :: (sep ++ (List.intercalate (',' :: sep)
      (Writer.members style level (m' :: ms)) ++ (tail ++ '\x7d' :: rest)))) (by omega)
      (delimited_mark (.inl rfl) _)
    have hmore := members_write style level hsep htail m' ms fuel rest (by omega)
    obtain ⟨t, ht⟩ := quote_members style level (',' :: sep) m' ms
    rw [ht] at hv hmore ⊢
    have hskip : skip (sep ++ '"' :: (t ++ (tail ++ '\x7d' :: rest))) =
        '"' :: (t ++ (tail ++ '\x7d' :: rest)) := skip_append hsep (by simp [isSpace])
    rw [← skip_space_write style level] at hv
    rw [List.cons_append, ← hskip] at hmore
    simp only [List.append_assoc, List.cons_append, List.nil_append]
    exact members_more (string_write style.escaping name _) (quote_string _ name _)
      (by simp [skip, isSpace]) hv (by simp [skip, isSpace]) hmore
termination_by fuel

end

/-- A document reads back, whatever spaces come after it. -/
theorem document_write (style : Style) (v : Json) {spaces : List Char} (h : Spaces spaces) :
    document (Writer.value style 0 v ++ spaces) = .ok v.reread := by
  have hrest : Delimited spaces := by simpa using h.delimited delimited_nil
  obtain ⟨c, t, hc, hspace, -, hmark⟩ := opens_write style 0 v
  have hv := value_write style 0 v (2 * (Writer.value style 0 v ++ spaces).length + 2) spaces
    (by simp only [List.length_append]; omega) hrest
  have hskip : skip (Writer.value style 0 v ++ spaces) = Writer.value style 0 v ++ spaces := by
    rw [hc]
    simp [skip, hspace]
  have hend : skip (spaces ++ []) = [] := skip_append h (by simp)
  rw [document.eq_def]
  split
  · rename_i heq
    rw [hc] at heq
    exact absurd (List.cons.inj heq).1 hmark
  · rw [hskip, hv]
    rw [List.append_nil] at hend
    simp only [bind, Except.bind, hend]
    rfl

end Reader

/-- A written document reads back as it was, but for numbers with a fraction or an exponent. -/
theorem readVerbatim_write (style : Style) (v : Json) {spaces : String}
    (h : Reader.Spaces spaces.toList) : readVerbatim (v.write style ++ spaces) = .ok v.reread := by
  have hdocument := Reader.document_write style v h
  simp [readVerbatim, write, hdocument, Except.mapError]

/-- A written document reads back with the last of the members of one name. -/
theorem read_write (style : Style) (v : Json) : read (v.write style) = .ok v.reread.settle := by
  have h : readVerbatim (v.write style ++ "") = .ok v.reread :=
    readVerbatim_write style v (by simp [Reader.Spaces])
  rw [String.append_empty] at h
  rw [read, h]
  rfl

theorem settleMembers_eq_map (ms : List (String × Json)) :
    settleMembers ms = ms.map fun m ↦ (m.1, m.2.settle) := by
  induction ms with
  | nil => rfl
  | cons m ms ih =>
    obtain ⟨name, v⟩ := m
    rw [settleMembers, ih]
    rfl

/-- An object reads back with the names of its members. -/
theorem read_write_obj (style : Style) (ms : List (String × Json)) :
    ∃ ms', read ((Json.obj ms).write style) = .ok (.obj ms') ∧
      ∀ name, name ∈ Table.keys ms' ↔ name ∈ Table.keys ms := by
  refine ⟨Table.ofEntries (settleMembers (rereadMembers ms)), ?_, fun name ↦ ?_⟩
  · rw [read_write, reread_obj, settle]
  · rw [Table.mem_keys_ofEntries, settleMembers_eq_map, rereadMembers_eq_map, Table.keys,
      Table.keys, List.map_map, List.map_map]
    rfl

end Json

end IceCube
