import Mathlib.Data.List.Nodup
import IceCube.Table

/-!
# Laws of tables

A table answers to a key with the value that was inserted last, and its keys stay where they first
came.  A table whose keys are distinct is determined by its entries, so reading it back from them
gives it again.
-/

namespace IceCube.Table

variable {κ ν μ : Type} [BEq κ] [LawfulBEq κ]

/-! ## Looking up -/

omit [LawfulBEq κ] in
@[simp] theorem get?_nil (k : κ) : get? ([] : Table κ ν) k = none := rfl

omit [LawfulBEq κ] in
theorem get?_cons (a : κ) (b : ν) (t : Table κ ν) (k : κ) :
    get? ((a, b) :: t) k = if a == k then some b else get? t k := rfl

theorem mem_of_get? {t : Table κ ν} {k : κ} {v : ν} (h : get? t k = some v) : (k, v) ∈ t := by
  induction t with
  | nil => simp at h
  | cons e t ih =>
    obtain ⟨a, b⟩ := e
    rw [get?_cons] at h
    split at h
    · rename_i hk
      simp_all
    · exact List.mem_cons_of_mem _ (ih h)

theorem get?_eq_none_iff {t : Table κ ν} {k : κ} : get? t k = none ↔ k ∉ keys t := by
  induction t with
  | nil => simp [keys]
  | cons e t ih =>
    obtain ⟨a, b⟩ := e
    by_cases h : a = k
    · simp [get?_cons, keys, h]
    · simp [get?_cons, h, ih, keys, Ne.symm h]

theorem mem_keys_iff {t : Table κ ν} {k : κ} : k ∈ keys t ↔ ∃ v, get? t k = some v := by
  rw [← Option.ne_none_iff_exists', ne_eq, get?_eq_none_iff, not_not]

/-- Where keys are distinct, looking up finds exactly the entries. -/
theorem get?_eq_some_iff {t : Table κ ν} (ht : (keys t).Nodup) {k : κ} {v : ν} :
    get? t k = some v ↔ (k, v) ∈ t := by
  refine ⟨mem_of_get?, fun h ↦ ?_⟩
  induction t with
  | nil => simp at h
  | cons e t ih =>
    obtain ⟨a, b⟩ := e
    obtain ⟨ha, ht⟩ := List.nodup_cons.mp ht
    rcases List.mem_cons.mp h with he | he
    · cases he
      simp [get?_cons]
    · have hk : a ≠ k := fun hak ↦ ha (hak ▸ List.mem_map.mpr ⟨(k, v), he, rfl⟩)
      simpa [get?_cons, hk] using ih ht he

/-- Where keys are distinct, the order of the entries does not matter. -/
theorem get?_perm {t u : Table κ ν} (ht : (keys t).Nodup) (h : t.Perm u) (k : κ) :
    get? t k = get? u k := by
  have hu : (keys u).Nodup := (h.map Prod.fst).nodup_iff.mp ht
  refine Option.ext fun v ↦ ?_
  rw [get?_eq_some_iff ht, get?_eq_some_iff hu, h.mem_iff]

/-- Tables with distinct keys that answer alike differ in the order of their entries only. -/
theorem perm_of_get? {t u : Table κ ν} (ht : (keys t).Nodup) (hu : (keys u).Nodup)
    (h : ∀ k, get? t k = get? u k) : t.Perm u := by
  rw [List.perm_ext_iff_of_nodup ht.of_map hu.of_map]
  rintro ⟨k, v⟩
  rw [← get?_eq_some_iff ht, ← get?_eq_some_iff hu, h]

theorem get?_append (t u : Table κ ν) (k : κ) : get? (t ++ u) k = (get? t k).or (get? u k) := by
  induction t with
  | nil => simp
  | cons e t ih =>
    obtain ⟨a, b⟩ := e
    by_cases h : a = k
    · simp [get?_cons, h]
    · simp [get?_cons, h, ih]

theorem contains_iff {t : Table κ ν} {k : κ} : contains t k = true ↔ k ∈ keys t := by
  rw [contains, Option.isSome_iff_exists, mem_keys_iff]

/-- Changing the values alone changes what is found and not where. -/
theorem get?_map (f : ν → μ) (t : Table κ ν) (k : κ) :
    get? (t.map fun e ↦ (e.1, f e.2)) k = (get? t k).map f := by
  induction t with
  | nil => simp
  | cons e t ih =>
    obtain ⟨a, b⟩ := e
    by_cases h : a = k
    · simp [get?_cons, h]
    · simp [get?_cons, h, ih]

/-! ## Inserting -/

theorem get?_insert [DecidableEq κ] (t : Table κ ν) (k l : κ) (v : ν) :
    get? (insert t k v) l = if k = l then some v else get? t l := by
  split
  · rename_i h
    rw [h, get?_insert_self]
  · rename_i h
    rw [get?_insert_of_ne t v h]

theorem insert_of_get?_eq_none {t : Table κ ν} {k : κ} (h : get? t k = none) (v : ν) :
    insert t k v = t ++ [(k, v)] := by
  induction t with
  | nil => rfl
  | cons e t ih =>
    obtain ⟨a, b⟩ := e
    by_cases hk : a = k
    · simp [get?_cons, hk] at h
    · simp [insert, hk, ih (by simpa [get?_cons, hk] using h)]

/-- Inserting what is there already changes nothing. -/
theorem insert_of_get?_eq_some {t : Table κ ν} {k : κ} {v : ν} (h : get? t k = some v) :
    insert t k v = t := by
  induction t with
  | nil => simp at h
  | cons e t ih =>
    obtain ⟨a, b⟩ := e
    by_cases hk : a = k
    · simp_all [get?_cons, insert]
    · simp [insert, hk, ih (by simpa [get?_cons, hk] using h)]

/-- A key that is there keeps its place. -/
theorem keys_insert_of_mem {t : Table κ ν} {k : κ} (h : k ∈ keys t) (v : ν) :
    keys (insert t k v) = keys t := by
  induction t with
  | nil => simp [keys] at h
  | cons e t ih =>
    obtain ⟨a, b⟩ := e
    by_cases hk : a = k
    · simp [insert, keys, hk]
    · have hmem : k ∈ keys t := by simpa [keys, Ne.symm hk] using h
      have hkeys := ih hmem
      simp only [keys] at hkeys ⊢
      simp [insert, hk, hkeys]

theorem mem_of_mem_insert {t : Table κ ν} {k : κ} {v : ν} {e : κ × ν} (h : e ∈ insert t k v) :
    e = (k, v) ∨ e ∈ t := by
  induction t with
  | nil => exact .inl (List.mem_singleton.mp h)
  | cons a t ih =>
    obtain ⟨a, b⟩ := a
    by_cases hk : a = k
    · subst hk
      rw [insert, if_pos (by simp)] at h
      exact (List.mem_cons.mp h).imp id (List.mem_cons_of_mem _)
    · rw [insert, if_neg (by simpa using hk)] at h
      rcases List.mem_cons.mp h with he | he
      · exact .inr (he ▸ List.mem_cons_self)
      · exact (ih he).imp id (List.mem_cons_of_mem _)

theorem nodup_keys_insert {t : Table κ ν} (ht : (keys t).Nodup) (k : κ) (v : ν) :
    (keys (insert t k v)).Nodup := by
  by_cases h : k ∈ keys t
  · rwa [keys_insert_of_mem h]
  · rw [insert_of_get?_eq_none (get?_eq_none_iff.mpr h)]
    simp only [keys, List.map_append, List.map_cons, List.map_nil]
    exact List.nodup_append.mpr ⟨ht, by simp, by
      rintro a ha b hb rfl
      exact h (List.mem_singleton.mp hb ▸ ha)⟩

/-- Asking for a value with one to fall back on is inserting the value that is given back. -/
theorem getOrInsert_eq (t : Table κ ν) (k : κ) (v : ν) :
    getOrInsert t k v = ((get? t k).getD v, insert t k ((get? t k).getD v)) := by
  rw [getOrInsert]
  cases h : get? t k with
  | none => simp [insert_of_get?_eq_none h]
  | some w => simp [insert_of_get?_eq_some h]

/-! ## Erasing -/

theorem get?_erase [DecidableEq κ] (t : Table κ ν) (k l : κ) :
    get? (erase t k) l = if k = l then none else get? t l := by
  induction t with
  | nil => simp [erase]
  | cons e t ih =>
    obtain ⟨a, b⟩ := e
    rw [erase] at ih ⊢
    by_cases ha : a = k
    · rw [List.filter_cons_of_neg (by simp [ha]), ih, get?_cons, ha]
      by_cases hkl : k = l <;> simp [hkl]
    · rw [List.filter_cons_of_pos (by simp [ha]), get?_cons, ih, get?_cons]
      by_cases hkl : k = l
      · subst hkl
        simp [ha]
      · simp [hkl]

/-! ## Inserting many entries -/

omit [LawfulBEq κ] in
@[simp] theorem insertAll_nil (t : Table κ ν) : insertAll t [] = t := rfl

omit [LawfulBEq κ] in
@[simp] theorem insertAll_cons (t : Table κ ν) (e : κ × ν) (es : List (κ × ν)) :
    insertAll t (e :: es) = insertAll (insert t e.1 e.2) es := rfl

/-- Of the entries with a key the last one counts, and before all of them what was there. -/
theorem get?_insertAll (t : Table κ ν) (es : List (κ × ν)) (k : κ) :
    get? (insertAll t es) k = (get? es.reverse k).or (get? t k) := by
  induction es generalizing t with
  | nil => simp
  | cons e es ih =>
    obtain ⟨a, b⟩ := e
    rw [insertAll_cons, ih, List.reverse_cons, get?_append, Option.or_assoc]
    congr 1
    by_cases h : a = k
    · simp [get?_cons, h]
    · simp [get?_cons, h, get?_insert_of_ne]

theorem get?_insertAll_of_nodup (t : Table κ ν) {es : List (κ × ν)} (hes : (keys es).Nodup) (k : κ) :
    get? (insertAll t es) k = (get? es k).or (get? t k) := by
  rw [get?_insertAll, get?_perm hes es.reverse_perm.symm]

theorem nodup_keys_insertAll {t : Table κ ν} (ht : (keys t).Nodup) (es : List (κ × ν)) :
    (keys (insertAll t es)).Nodup := by
  induction es generalizing t with
  | nil => exact ht
  | cons e es ih => exact ih (nodup_keys_insert ht e.1 e.2)

/-- Entries whose keys are distinct and new come after what was there. -/
theorem insertAll_eq_append {t : Table κ ν} {es : List (κ × ν)}
    (h : (keys (t ++ es)).Nodup) : insertAll t es = t ++ es := by
  induction es generalizing t with
  | nil => simp
  | cons e es ih =>
    have hnew : get? t e.1 = none := by
      refine get?_eq_none_iff.mpr fun hmem ↦ ?_
      simp only [keys, List.map_append, List.map_cons] at h
      exact (List.nodup_append.mp h).2.2 e.1 hmem e.1 (by simp) rfl
    rw [insertAll_cons, insert_of_get?_eq_none hnew]
    simpa using ih (t := t ++ [e]) (by simpa using h)

/-- A table whose keys are distinct is the table of its entries. -/
theorem ofEntries_eq_self {es : List (κ × ν)} (h : (keys es).Nodup) : ofEntries es = es := by
  simpa [ofEntries] using insertAll_eq_append (t := []) (by simpa using h)

/-- The keys of the table of entries are those of the entries. -/
theorem mem_keys_ofEntries {es : List (κ × ν)} {k : κ} : k ∈ keys (ofEntries es) ↔ k ∈ keys es := by
  have hrev : k ∈ keys es.reverse ↔ k ∈ keys es := by simp [keys]
  rw [← hrev, mem_keys_iff, mem_keys_iff]
  simp only [ofEntries, get?_insertAll, get?_nil, Option.or_none]

theorem nodup_keys_ofEntries (es : List (κ × ν)) : (keys (ofEntries es)).Nodup :=
  nodup_keys_insertAll (by simp [keys]) es

theorem mem_of_mem_ofEntries {es : List (κ × ν)} {e : κ × ν} (h : e ∈ ofEntries es) : e ∈ es := by
  have hget := (get?_eq_some_iff (nodup_keys_ofEntries es)).mpr h
  rw [ofEntries, get?_insertAll, get?_nil, Option.or_none] at hget
  exact List.mem_reverse.mp (mem_of_get? hget)

omit [LawfulBEq κ] in
theorem insert_map (f : ν → μ) (t : Table κ ν) (k : κ) (v : ν) :
    insert (t.map fun e ↦ (e.1, f e.2)) k (f v) = (insert t k v).map fun e ↦ (e.1, f e.2) := by
  induction t with
  | nil => rfl
  | cons e t ih =>
    obtain ⟨a, b⟩ := e
    by_cases h : (a == k) = true <;> simp [insert, h, ih]

omit [LawfulBEq κ] in
/-- Changing the values alone can be done before inserting or after. -/
theorem ofEntries_map (f : ν → μ) (es : List (κ × ν)) :
    ofEntries (es.map fun e ↦ (e.1, f e.2)) = (ofEntries es).map fun e ↦ (e.1, f e.2) := by
  have hall (t : Table κ ν) : insertAll (t.map fun e ↦ (e.1, f e.2)) (es.map fun e ↦ (e.1, f e.2)) =
      (insertAll t es).map fun e ↦ (e.1, f e.2) := by
    induction es generalizing t with
    | nil => rfl
    | cons e es ih => rw [List.map_cons, insertAll_cons, insertAll_cons, insert_map, ih]
  exact hall []

/-! ## The order of keys -/

/-- The keys with one more, which comes last unless it is there already. -/
def addKey (ks : List κ) (k : κ) : List κ := if k ∈ ks then ks else ks ++ [k]

theorem keys_insert (t : Table κ ν) (k : κ) (v : ν) : keys (insert t k v) = addKey (keys t) k := by
  rw [addKey]
  split
  · rename_i h
    exact keys_insert_of_mem h v
  · rename_i h
    rw [insert_of_get?_eq_none (get?_eq_none_iff.mpr h), keys, List.map_append]
    rfl

/-- New keys come in the order in which they are inserted. -/
theorem keys_insertAll (t : Table κ ν) (es : List (κ × ν)) :
    keys (insertAll t es) = (keys es).foldl addKey (keys t) := by
  induction es generalizing t with
  | nil => rfl
  | cons e es ih =>
    rw [insertAll_cons, ih, keys_insert]
    rfl

/-- Keys that are left out have no say in the order of the others. -/
theorem filter_foldl_addKey (p : κ → Bool) (ks ls : List κ) :
    (ls.foldl addKey ks).filter p = (ls.filter p).foldl addKey (ks.filter p) := by
  induction ls generalizing ks with
  | nil => rfl
  | cons l ls ih =>
    rw [List.foldl_cons, ih, List.filter_cons]
    by_cases hl : p l = true
    · rw [if_pos hl, List.foldl_cons]
      congr 1
      simp only [addKey, List.mem_filter, hl, and_true]
      split <;> simp [hl]
    · rw [if_neg hl]
      congr 1
      rw [addKey]
      split <;> simp [hl]

theorem foldl_addKey_of_nodup {ks ls : List κ} (h : (ks ++ ls).Nodup) :
    ls.foldl addKey ks = ks ++ ls := by
  induction ls generalizing ks with
  | nil => simp
  | cons l ls ih =>
    have hl : l ∉ ks := fun hmem ↦ (List.nodup_append.mp h).2.2 l hmem l (by simp) rfl
    rw [List.foldl_cons, addKey, if_neg hl, ih (by simpa using h), List.append_assoc]
    rfl

/-- Where keys are distinct, sorting by them leaves one order only. -/
theorem mergeSort_eq_of_perm {t u : Table String ν} (ht : (keys t).Nodup) (h : t.Perm u) :
    t.mergeSort (fun a b ↦ decide (a.1 ≤ b.1)) = u.mergeSort fun a b ↦ decide (a.1 ≤ b.1) := by
  have hsorted := @List.pairwise_mergeSort (String × ν) (fun a b ↦ decide (a.1 ≤ b.1))
    (fun a b c hab hbc ↦ by simpa using String.le_trans (by simpa using hab) (by simpa using hbc))
    (fun a b ↦ by simpa using String.le_total a.1 b.1)
  have ht' := List.mergeSort_perm t fun a b ↦ decide (a.1 ≤ b.1)
  have hu' := List.mergeSort_perm u fun a b ↦ decide (a.1 ≤ b.1)
  refine (ht'.trans (h.trans hu'.symm)).eq_of_pairwise (fun a b ha hb hab hba ↦ ?_) (hsorted t)
    (hsorted u)
  refine List.inj_on_of_nodup_map ht (ht'.mem_iff.mp ha) (h.mem_iff.mpr (hu'.mem_iff.mp hb)) ?_
  exact String.le_antisymm (of_decide_eq_true hab) (of_decide_eq_true hba)

/-- The table of a function on some keys. -/
theorem get?_ofEntries_function [DecidableEq κ] (f : κ → ν) (ks : List κ) (k : κ) :
    get? (ofEntries (ks.map fun k ↦ (k, f k))) k = if k ∈ ks then some (f k) else none := by
  rw [ofEntries, get?_insertAll, get?_nil, Option.or_none, ← List.map_reverse]
  split_ifs with h
  · obtain ⟨v, hv⟩ := mem_keys_iff.mp (show k ∈ keys (ks.reverse.map fun k ↦ (k, f k)) by
      simpa [keys, Function.comp_def] using h)
    obtain ⟨k', -, he⟩ := List.mem_map.mp (mem_of_get? hv)
    cases he
    exact hv
  · exact get?_eq_none_iff.mpr (by simpa [keys, Function.comp_def] using h)

end IceCube.Table
