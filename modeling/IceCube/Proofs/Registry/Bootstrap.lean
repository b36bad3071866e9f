import IceCube.Proofs.Json.Lossless
import IceCube.Proofs.Registry.Contained
import IceCube.Proofs.Registry.Pages

/-!
# The script of a page

The script of a page has the addresses of all scripts in an object literal.  Four signs that mean
something in a page are written as escapes there, and a reader of documents takes the escapes back,
so the literal stands for the addresses whatever signs these and the names have.  No angle bracket
is left in it, and the script has none of its own but for its two tags.
-/

namespace IceCube

open Step

/-! ## Escaped signs -/

namespace Json.Writer

/-- The signs that are escaped in a script. -/
def isTagSign (c : Char) : Bool := c == '<' || c == '>' || c == '&' || c == '\''

theorem protectChar_eq (c : Char) :
    Registry.protectChar c = if isTagSign c then codeUnits c else [c] := by
  have hdef : Registry.protectChar c = if isTagSign c then unicode c.toNat else [c] := rfl
  rw [hdef]
  split
  · rename_i h
    have hascii : c.toNat < 0x10000 := by
      simp only [isTagSign, Bool.or_eq_true, beq_iff_eq] at h
      rcases h with ((rfl | rfl) | rfl) | rfl <;> decide
    rw [codeUnits, if_pos hascii]
  · rfl

/-- What has none of the signs stays as it is. -/
theorem flatMap_protectChar_eq_self {cs : List Char} (h : ∀ c ∈ cs, isTagSign c = false) :
    cs.flatMap Registry.protectChar = cs := by
  induction cs with
  | nil => rfl
  | cons c cs ih =>
    obtain ⟨hc, hcs⟩ := List.forall_mem_cons.mp h
    rw [List.flatMap_cons, protectChar_eq, hc, ih hcs]
    rfl

theorem not_isTagSign_unicode (n : Nat) : ∀ c ∈ unicode n, isTagSign c = false := by
  rw [unicode, List.forall_mem_cons, List.forall_mem_cons]
  refine ⟨rfl, rfl, fun c hc ↦ ?_⟩
  obtain ⟨d, hd, rfl⟩ := Text.exists_of_mem_hexDigits hc
  interval_cases d <;> rfl

theorem not_isTagSign_codeUnits (c : Char) : ∀ d ∈ codeUnits c, isTagSign d = false := by
  unfold codeUnits
  dsimp only
  split
  · exact not_isTagSign_unicode _
  · exact List.forall_mem_append.mpr ⟨not_isTagSign_unicode _, not_isTagSign_unicode _⟩

/-- None of the signs is left. -/
theorem not_isTagSign_protected (cs : List Char) :
    ∀ d ∈ cs.flatMap Registry.protectChar, isTagSign d = false := by
  intro d hd
  obtain ⟨c, -, hc⟩ := List.mem_flatMap.mp hd
  rw [protectChar_eq] at hc
  split at hc
  · exact not_isTagSign_codeUnits c d hc
  · rename_i h
    rw [List.mem_singleton.mp hc]
    simpa using h

end Json.Writer

namespace Json.Reader

open Writer

/-- A character inside a string literal of a script. -/
def protectedForm (c : Char) : List Char := (Writer.char .ascii c).flatMap Registry.protectChar

theorem protectedForm_eq (c : Char) :
    protectedForm c = if isTagSign c then codeUnits c else Writer.char .ascii c := by
  unfold protectedForm
  rcases char_forms .ascii c with ⟨l, hl, -, h⟩ | h | ⟨h, -, -, -⟩
  · have hplain : isTagSign c = false ∧ isTagSign l = false := by
      unfold escaped? at hl
      split at hl <;> cases hl <;> exact ⟨rfl, rfl⟩
    rw [h, hplain.1]
    exact flatMap_protectChar_eq_self (by simp [hplain.2, show isTagSign '\\' = false from rfl])
  · rw [h, flatMap_protectChar_eq_self (not_isTagSign_codeUnits c), ite_self]
  · rw [h, List.flatMap_singleton, protectChar_eq]

/-- The literals of a script are read as the texts that were written. -/
theorem readsBack_protectedForm : ReadsBack protectedForm := by
  intro start read cs fuel c d
  rw [protectedForm_eq]
  split
  · rw [codeUnits_eq]
    exact stringBody_unicode (unicode_codeUnits c d cs)
  · exact readsBack_char .ascii start read cs fuel c d

/-! ## Objects of texts -/

/-- A text as a string literal of a script. -/
def protectedString (s : String) : List Char := '"' :: (s.toList.flatMap protectedForm ++ ['"'])

theorem flatMap_string (s : String) :
    (Writer.string .ascii s).flatMap Registry.protectChar = protectedString s := by
  have hquote : Registry.protectChar '"' = ['"'] := rfl
  rw [Writer.string, protectedString, List.flatMap_cons, List.flatMap_append, List.flatMap_assoc,
    List.flatMap_singleton, hquote]
  rfl

theorem string_protectedString (s : String) (rest : List Char) :
    string (protectedString s ++ rest) = .ok (s, rest) := by
  rw [protectedString, List.cons_append, List.append_assoc, List.singleton_append]
  exact readsBack_protectedForm.string_flatMap s rest

theorem value_protectedString (fuel : Nat) (s : String) (rest : List Char) :
    value (fuel + 1) (protectedString s ++ rest) = .ok (.str s, rest) := by
  have h := string_protectedString s rest
  rw [protectedString, List.cons_append] at *
  rw [value, h]
  rfl

/-- A member of an object of texts. -/
def protectedMember (e : String × String) : List Char :=
  protectedString e.1 ++ ':' :: ' ' :: protectedString e.2

/-- A text as a document. -/
def textMember (e : String × String) : String × Json := (e.1, .str e.2)

theorem members_textMember (level : Nat) (es : List (String × String)) :
    (Writer.members ⟨.ascii, .oneLine⟩ level (es.map textMember)).map
      (·.flatMap Registry.protectChar) = es.map protectedMember := by
  induction es with
  | nil => rfl
  | cons e es ih =>
    have hvalue : Writer.value ⟨.ascii, .oneLine⟩ level (.str e.2) = Writer.string .ascii e.2 := by
      rw [Writer.value]
    rw [List.map_cons, textMember, Writer.members, List.map_cons, ih, hvalue, List.flatMap_append,
      List.flatMap_append, flatMap_string, flatMap_string, List.map_cons, protectedMember,
      List.append_assoc]
    rfl

theorem length_intercalate_protectedMember (es : List (String × String)) :
    es.length ≤ (List.intercalate [',', ' '] (es.map protectedMember)).length := by
  induction es with
  | nil => exact Nat.zero_le _
  | cons e es ih =>
    obtain rfl | hes := eq_or_ne es []
    · rw [List.map_singleton, intercalate_one, protectedMember, protectedString]
      simp
    · rw [List.map_cons, intercalate_more _ _ (by simpa using hes), protectedMember,
        protectedString]
      simp only [List.length_append, List.length_cons] at ih ⊢
      omega

theorem quote_protected (e : String × String) (es : List (String × String)) (rest : List Char) :
    ∃ t, List.intercalate [',', ' '] ((e :: es).map protectedMember) ++ rest = '"' :: t := by
  obtain ⟨t, ht⟩ := intercalate_cons [',', ' '] (protectedMember e) (es.map protectedMember)
  rw [List.map_cons, ht]
  exact ⟨_, rfl⟩

/-- Written members read back, up to and with the closing brace. -/
theorem members_protected (e : String × String) (es : List (String × String)) {fuel : Nat}
    (hfuel : es.length + 1 < fuel) (rest : List Char) :
    members fuel (List.intercalate [',', ' '] ((e :: es).map protectedMember) ++ '\x7d' :: rest) =
      .ok ((e :: es).map textMember, rest) := by
  have hquote (e : String × String) (cs : List Char) :
      ∃ t, protectedString e.1 ++ cs = '"' :: t := ⟨_, rfl⟩
  have hmark {c : Char} (hc : isSpace c = false) (cs : List Char) : skip (c :: cs) = c :: cs := by
    simp [skip, hc]
  have hvalue (n : ℕ) (s : String) (cs : List Char) :
      value (n + 1) (skip (' ' :: (protectedString s ++ cs))) = .ok (.str s, cs) := by
    have hspace : skip (' ' :: (protectedString s ++ cs)) = protectedString s ++ cs := by
      simp [skip, isSpace, protectedString]
    rw [hspace, value_protectedString]
  obtain ⟨fuel, rfl⟩ : ∃ k, fuel = k + 1 + 1 := ⟨fuel - 2, by omega⟩
  induction es generalizing e fuel with
  | nil =>
    simp only [List.map_singleton, intercalate_one, protectedMember, List.append_assoc,
      List.cons_append]
    exact members_one (string_protectedString e.1 _) (hquote e _) (hmark rfl _) (hvalue fuel e.2 _)
      (hmark rfl _)
  | cons e' es ih =>
    rw [List.length_cons] at hfuel
    obtain ⟨fuel, rfl⟩ := Nat.exists_eq_add_one_of_ne_zero (show fuel ≠ 0 by omega)
    have hmore := ih e' fuel (by omega)
    obtain ⟨t, ht⟩ := quote_protected e' es ('\x7d' :: rest)
    have hskip : skip (' ' :: '"' :: t) = '"' :: t := by simp [skip, isSpace]
    rw [ht, ← hskip] at hmore
    rw [List.map_cons, intercalate_more _ _ (by simp)]
    simp only [protectedMember, List.append_assoc, List.cons_append, List.nil_append, ht]
    exact members_more (string_protectedString e.1 _) (hquote e _) (hmark rfl _) (hvalue _ e.2 _)
      (hmark rfl _) hmore

/-- An object of texts in a script. -/
def protectedObject (es : List (String × String)) : List Char :=
  '\x7b' :: (List.intercalate [',', ' '] (es.map protectedMember) ++ ['\x7d'])

theorem flatMap_intercalate (f : Char → List Char) (sep : List Char) (parts : List (List Char)) :
    (List.intercalate sep parts).flatMap f =
      List.intercalate (sep.flatMap f) (parts.map (·.flatMap f)) := by
  induction parts with
  | nil => rfl
  | cons part parts ih =>
    obtain rfl | hparts := eq_or_ne parts []
    · simp only [List.map_singleton, intercalate_one]
    · rw [List.map_cons, intercalate_more _ _ hparts, intercalate_more _ _ (by simpa using hparts),
        List.flatMap_append, List.flatMap_append, ih]

theorem flatMap_obj (es : List (String × String)) :
    (Json.obj (es.map textMember)).compact.toList.flatMap Registry.protectChar =
      protectedObject es := by
  have hparts := members_textMember 1 es
  rw [Json.compact, Json.write, String.toList_ofList, Writer.value, Writer.enclose]
  split
  · rename_i hempty
    rw [List.isEmpty_iff.mp hempty] at hparts
    rw [List.map_eq_nil_iff.mp hparts.symm]
    rfl
  · rw [List.flatMap_cons, List.flatMap_append, flatMap_intercalate, hparts]
    rfl

/-- An object of texts is read as it was written. -/
theorem value_protectedObject (es : List (String × String)) {fuel : Nat}
    (hfuel : (protectedObject es).length < fuel) (rest : List Char) :
    value fuel (protectedObject es ++ rest) = .ok (.obj (es.map textMember), rest) := by
  obtain ⟨fuel, rfl⟩ := Nat.exists_eq_add_one_of_ne_zero (Nat.ne_of_gt (Nat.zero_lt_of_lt hfuel))
  rw [protectedObject, List.cons_append, List.append_assoc, List.singleton_append]
  cases es with
  | nil => rfl
  | cons e es =>
    have hlength := length_intercalate_protectedMember (e :: es)
    simp only [protectedObject, List.length_cons, List.length_append] at hfuel hlength
    have hmembers := members_protected e es (show es.length + 1 < fuel by omega) rest
    obtain ⟨t, ht⟩ := quote_protected e es ('\x7d' :: rest)
    rw [ht] at hmembers ⊢
    exact value_obj (show Spaces [] from nofun) hmembers

/-- A document that is an object of texts is read as it was written. -/
theorem document_protectedObject (es : List (String × String)) :
    document (protectedObject es) = .ok (.obj (es.map textMember)) := by
  have hvalue : value (2 * (protectedObject es).length + 2) (protectedObject es ++ []) =
      .ok (.obj (es.map textMember), []) := value_protectedObject es (by omega) []
  have hskip : skip (protectedObject es) = protectedObject es := by
    simp [protectedObject, skip, isSpace]
  rw [List.append_nil] at hvalue
  rw [document, hskip, hvalue]
  · rfl
  · simp [protectedObject]

end Json.Reader

namespace Registry

open Text Json.Reader

variable {r : Registry}

/-! ## The addresses in a script -/

/-- The addresses of the scripts, sorted by the names of their components. -/
def sortedUrls (r : Registry) : List (String × String) :=
  r.scriptUrls.mergeSort fun a b ↦ decide (a.1 ≤ b.1)

theorem toList_scriptMap (r : Registry) : r.scriptMap.toList = protectedObject r.sortedUrls := by
  rw [scriptMap, String.toList_ofList]
  exact flatMap_obj r.sortedUrls

theorem nodup_keys_sortedUrls (r : Registry) : (Table.keys r.sortedUrls).Nodup := by
  have hperm : r.sortedUrls.Perm r.scriptUrls := List.mergeSort_perm _ _
  rw [Table.keys, (hperm.map Prod.fst).nodup_iff]
  exact Table.nodup_keys_ofEntries _

theorem scripted?_eq_some_iff {record : Record} {e : String × String} :
    scripted? record = some e ↔
      record.componentName = e.1 ∧ record.scriptUrl = some e.2 ∧ e.2 ≠ "" := by
  obtain ⟨name, url⟩ := e
  unfold scripted?
  split
  · simp_all
  · simp_all
  · rename_i url' hsome hurl
    rw [hurl, Option.some.injEq, Prod.mk.injEq, Option.some.injEq]
    constructor
    · rintro ⟨rfl, rfl⟩
      exact ⟨rfl, rfl, hsome⟩
    · rintro ⟨rfl, rfl, -⟩
      exact ⟨rfl, rfl⟩

/-- The addresses in a script are those of the components that have one. -/
theorem Coherent.mem_sortedUrls (h : Coherent r) {e : String × String} :
    e ∈ r.sortedUrls ↔ ∃ record ∈ r.records.values,
      record.componentName = e.1 ∧ record.scriptUrl = some e.2 ∧ e.2 ≠ "" := by
  have hperm : r.sortedUrls.Perm r.scriptUrls := List.mergeSort_perm _ _
  rw [hperm.mem_iff, h.scriptUrls_eq, List.mem_filterMap]
  simp only [scripted?_eq_some_iff]

/-- The literal in a script is read as the addresses. -/
theorem read_scriptMap (r : Registry) :
    Json.read r.scriptMap = .ok (.obj (r.sortedUrls.map textMember)) := by
  have hplain : (Json.obj (r.sortedUrls.map textMember)).Plain := by
    refine ⟨?_, Json.plainMembers_of_forall ?_⟩
    · rw [Table.keys, List.map_map]
      exact r.nodup_keys_sortedUrls
    · intro m hm
      obtain ⟨e, -, rfl⟩ := List.mem_map.mp hm
      trivial
  rw [Json.read, Json.readVerbatim, toList_scriptMap, document_protectedObject]
  simp only [Except.mapError, Except.map, hplain.settle_eq_self]

/-! ## The tags of a script -/

theorem angle_not_mem_scriptMap (r : Registry) : '<' ∉ r.scriptMap.toList := by
  rw [scriptMap, String.toList_ofList]
  intro hangle
  cases Json.Writer.not_isTagSign_protected _ _ hangle

theorem not_mem_toList_ofList {c : Char} {cs : List Char} (h : c ∉ cs) :
    c ∉ (String.ofList cs).toList := by
  rwa [String.toList_ofList]

/-- A script has two angle brackets that open a tag: those of its own two tags. -/
theorem toList_bootstrapScript (r : Registry) : ∃ body, '<' ∉ body ∧
    r.bootstrapScript.toList = '<' :: 's' :: body ++ "</script>\n".toList := by
  obtain ⟨text, htext, hend⟩ : ∃ text, '<' ∉ text ∧
      scriptEnd.toList = text ++ "</script>\n".toList := by
    refine ⟨_, ?_, String.toList_append⟩
    simp only [String.toList_append, List.mem_append, not_or]
    and_intros <;> exact not_mem_toList_ofList (by decide)
  obtain ⟨start, hstart, hbegin⟩ : ∃ start, '<' ∉ start ∧
      scriptStart.toList = '<' :: 's' :: start := ⟨scriptStart.toList.drop 2, by decide, rfl⟩
  refine ⟨start ++ r.scriptMap.toList ++ text, ?_, ?_⟩
  · simp [hstart, htext, angle_not_mem_scriptMap]
  · rw [bootstrapScript, String.toList_append, String.toList_append, hbegin, hend]
    simp

/-- The places of a sign that a text has in two places only. -/
theorem places_of_two {c : Char} {body rest before after : List Char} (hbody : c ∉ body)
    (hrest : c ∉ rest) (h : c :: body ++ c :: rest = before ++ c :: after) :
    (before = [] ∧ after = body ++ c :: rest) ∨ (before = c :: body ∧ after = rest) := by
  cases before with
  | nil => exact .inl ⟨rfl, (List.cons.inj h).2.symm⟩
  | cons d before =>
    obtain ⟨rfl, htail⟩ := List.cons.inj h
    obtain ⟨rfl, -, rfl⟩ := (List.append_cons_inj_of_notMem hbody hrest).mp htail
    exact .inr ⟨rfl, rfl⟩

/-- What comes after an angle bracket in a script. -/
theorem after_angle {before after : List Char}
    (h : r.bootstrapScript.toList = before ++ '<' :: after) :
    after.head? = some 's' ∨ after = "/script>\n".toList := by
  obtain ⟨body, hbody, hscript⟩ := r.toList_bootstrapScript
  have hangle : '<' ∉ 's' :: body := by simp [hbody]
  rw [hscript] at h
  rcases places_of_two hangle (show '<' ∉ "/script>\n".toList by decide) h with ⟨-, rfl⟩ | ⟨-, rfl⟩
  · exact .inl rfl
  · exact .inr rfl

/-- The only closing tag of a script is the one at its end. -/
theorem closing_tag_at_end {before m after : List Char}
    (h : r.bootstrapScript.toList = before ++ m ++ after) (hm : Spells "</script".toList m) :
    m ++ after = "</script>\n".toList := by
  obtain ⟨letters, rfl, -⟩ := spells_closing_iff.mp hm
  rw [List.append_assoc, List.cons_append] at h
  rcases after_angle h with hs | hend
  · cases hs
  · rw [List.cons_append, hend]
    rfl

theorem not_comment_in_script (r : Registry) : ¬ "<!--".toList <:+: r.bootstrapScript.toList := by
  rintro ⟨before, after, h⟩
  rw [List.append_assoc] at h
  rcases after_angle h.symm with hs | hend
  · cases hs
  · cases hend

end Registry

/-- The script of a page carries the addresses of the scripts of all components that have one, by
their names, and nothing that is in them ends it or comments it out. -/
theorem bootstrap_carries_script_map {w : World} (hw : Reachable w) (home : RegistryId) :
    (∀ before m after, (w.registry home).bootstrapScript.toList = before ++ m ++ after →
        Text.Spells "</script".toList m → m ++ after = "</script>\n".toList) ∧
      ¬ "<!--".toList <:+: (w.registry home).bootstrapScript.toList ∧
      ∃ literal members,
        (w.registry home).bootstrapScript =
          Registry.scriptStart ++ literal ++ Registry.scriptEnd ∧
        Json.read literal = .ok (.obj members) ∧ (Table.keys members).Nodup ∧
        ∀ name v, Table.get? members name = some v ↔
          ∃ record ∈ (w.registry home).records.values, ∃ url, record.componentName = name ∧
            record.scriptUrl = some url ∧ url ≠ "" ∧ v = .str url := by
  have hcoherent := Registry.Coherent.of_reachable hw home
  refine ⟨fun _ _ _ ↦ Registry.closing_tag_at_end, Registry.not_comment_in_script _, _, _, rfl,
    Registry.read_scriptMap _, ?_, fun name v ↦ ?_⟩
  · rw [Table.keys, List.map_map]
    exact Registry.nodup_keys_sortedUrls _
  · have hget : Table.get? ((w.registry home).sortedUrls.map Json.Reader.textMember) name =
        (Table.get? (w.registry home).sortedUrls name).map Json.str := Table.get?_map _ _ _
    rw [hget, Option.map_eq_some_iff]
    simp only [Table.get?_eq_some_iff (Registry.nodup_keys_sortedUrls _), hcoherent.mem_sortedUrls]
    constructor
    · rintro ⟨url, ⟨record, hrecord, hname, hurl, hsome⟩, rfl⟩
      exact ⟨record, hrecord, url, hname, hurl, hsome, rfl⟩
    · rintro ⟨record, hrecord, url, hname, hurl, hsome, rfl⟩
      exact ⟨url, ⟨record, hrecord, hname, hurl, hsome⟩, rfl⟩

/-- A world in which a card is registered whose script has an address that would end the script. -/
def endingCard : World :=
  let card : Record := .cached ⟨"app.Card", "app_Card", "out/card.py", "out/card", none,
    some "</SCRIPT><!--", "0123abcd"⟩
  (outcome (Request.register "main" "app.Card" card).run (.start (.empty []) ⟨none, none⟩)).2

/-- The address is in the literal, and the script goes on. -/
theorem ending_card_is_carried : Reachable endingCard ∧
    ¬ "<!--".toList <:+: (endingCard.registry "main").bootstrapScript.toList ∧
    ∃ literal members,
      (endingCard.registry "main").bootstrapScript =
        Registry.scriptStart ++ literal ++ Registry.scriptEnd ∧
      Json.read literal = .ok (.obj members) ∧
      Table.get? members "app_Card" = some (.str "</SCRIPT><!--") := by
  have hw : Reachable endingCard := .request (.start _ _) _
  obtain ⟨-, hcomment, literal, members, hscript, hread, -, hmembers⟩ :=
    bootstrap_carries_script_map hw "main"
  refine ⟨hw, hcomment, literal, members, hscript, hread, (hmembers _ _).mpr ?_⟩
  exact ⟨_, List.mem_singleton.mpr rfl, _, rfl, rfl, by decide, rfl⟩

end IceCube
