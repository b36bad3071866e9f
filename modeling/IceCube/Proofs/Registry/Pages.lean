import IceCube.Proofs.Registry.Canonical
import IceCube.Proofs.Registry.Inlined

/-!
# Pages of registries with the same components

The script of a page sorts the components by their names, so it does not tell in which order they were
registered.  The stylesheets come in that order, and where two rules are about one element the later
one counts, so pages are the same only if the components with a stylesheet were registered in the same
order.
-/

namespace IceCube.Registry

variable {q r : Registry}

/-- The same components are under the same identifiers, with the same stylesheets and addresses. -/
def SameComponents (q r : Registry) : Prop :=
  ∀ i, (q.get? i).map (·.toCached true) = (r.get? i).map (·.toCached true)

/-- What is read off the records can be read off their projections. -/
theorem SameComponents.filterMap_perm {β : Type} (h : SameComponents q r) (hq : Coherent q)
    (hr : Coherent r) {f : Record → Option β}
    (hf : ∀ record, f (.cached (record.toCached true)) = f record) :
    (q.records.values.filterMap f).Perm (r.records.values.filterMap f) := by
  have hprojected (r : Registry) : r.records.values.filterMap f =
      (r.records.map fun e ↦ (e.1, e.2.toCached true)).filterMap fun e ↦ f (.cached e.2) := by
    rw [Table.values, List.filterMap_map, List.filterMap_map]
    exact List.filterMap_congr fun e _ ↦ (hf e.2).symm
  rw [hprojected q, hprojected r]
  exact (hq.projections_perm hr h).filterMap _

/-! ## The script -/

/-- The name and the address of the script of a record that has one. -/
def scripted? (record : Record) : Option (String × String) :=
  match record.scriptUrl with
  | none | some "" => none
  | some url => some (record.componentName, url)

theorem fst_of_scripted? {record : Record} {e : String × String} (h : scripted? record = some e) :
    e.1 = record.componentName := by
  unfold scripted? at h
  split at h
  · cases h
  · cases h
  · cases h
    rfl

theorem Coherent.scriptUrls_eq (h : Coherent r) :
    r.scriptUrls = r.records.values.filterMap scripted? := by
  refine Table.ofEntries_eq_self (h.nodup_componentNames.sublist ?_)
  have hnames := sublist_names fst_of_scripted? r.records.values
  rw [Table.values, List.map_map] at hnames
  exact hnames

/-- The script of a page depends on the components only. -/
theorem SameComponents.bootstrapScript_eq (h : SameComponents q r) (hq : Coherent q)
    (hr : Coherent r) : q.bootstrapScript = r.bootstrapScript := by
  have hscripts := h.filterMap_perm hq hr (f := scripted?) fun record ↦ by cases record <;> rfl
  rw [← hq.scriptUrls_eq, ← hr.scriptUrls_eq] at hscripts
  have hnodup : (Table.keys q.scriptUrls).Nodup := Table.nodup_keys_ofEntries _
  rw [bootstrapScript, bootstrapScript, scriptMap, scriptMap, Table.mergeSort_eq_of_perm hnodup hscripts]

/-! ## The stylesheets -/

theorem styled?_toCached (record : Record) :
    styled? (.cached (record.toCached true)) = styled? record := by
  cases record <;> rfl

/-- The stylesheets of a page depend on the components only, up to their order. -/
theorem SameComponents.stylesheetsOf_perm (h : SameComponents q r) (hq : Coherent q)
    (hr : Coherent r) : (stylesheetsOf q.allStyles).Perm (stylesheetsOf r.allStyles) := by
  rw [stylesheetsOf_allStyles, stylesheetsOf_allStyles]
  exact (h.filterMap_perm hq hr styled?_toCached).map _

/-- The stylesheet that a page has for an identifier. -/
def style? (r : Registry) (i : String) : Option (String × String) := (r.get? i).bind styled?

/-- The identifiers whose components have a stylesheet, in the order in which they were registered. -/
def styledKeys (r : Registry) : List String :=
  (Table.keys r.records).filter fun i ↦ (r.style? i).isSome

theorem SameComponents.style?_eq (h : SameComponents q r) : q.style? = r.style? := by
  have hstyle (r : Registry) (i : String) :
      r.style? i = ((r.get? i).map (·.toCached true)).bind fun c ↦ styled? (.cached c) := by
    rw [style?, Option.bind_map]
    exact congrArg _ (funext fun record ↦ (styled?_toCached record).symm)
  funext i
  rw [hstyle q, hstyle r, h i]

/-- A page has the stylesheets of those identifiers. -/
theorem Coherent.filterMap_styled? (h : Coherent r) :
    r.records.values.filterMap styled? = r.styledKeys.filterMap r.style? := by
  rw [styledKeys, List.filterMap_filter, Table.values, Table.keys, List.filterMap_map,
    List.filterMap_map]
  refine List.filterMap_congr fun e he ↦ ?_
  have hstyle : r.style? e.1 = styled? e.2 := by
    rw [style?, get?, (Table.get?_eq_some_iff h.nodup).mpr he]
    rfl
  simp only [Function.comp_apply, hstyle]
  cases styled? e.2 <;> rfl

/-- The identifiers are known from the names in the page, of which they are the owners. -/
theorem Coherent.filterMap_owners (h : Coherent r) {ks : List String}
    (hks : ∀ i ∈ ks, (r.style? i).isSome) :
    ((ks.filterMap r.style?).map Prod.fst).filterMap (Table.get? r.owners) = ks := by
  induction ks with
  | nil => rfl
  | cons i ks ih =>
    obtain ⟨hi, hks⟩ := List.forall_mem_cons.mp hks
    obtain ⟨e, he⟩ := Option.isSome_iff_exists.mp hi
    obtain ⟨record, hget, hstyled⟩ := Option.bind_eq_some_iff.mp he
    have howner : Table.get? r.owners e.1 = some i := by
      rw [fst_of_styled? hstyled]
      exact h.owned hget
    rw [List.filterMap_cons_some he, List.map_cons, List.filterMap_cons_some howner, ih hks]

/-- Pages have the same stylesheets in the same order exactly if the components that have one were
registered in the same order. -/
theorem SameComponents.allStyles_eq_iff (h : SameComponents q r) (hq : Coherent q)
    (hr : Coherent r) : q.allStyles = r.allStyles ↔ q.styledKeys = r.styledKeys := by
  constructor
  · intro hpages
    have hids : ((q.styledKeys.filterMap r.style?).map Prod.fst).map Script.styleElementId =
        ((r.styledKeys.filterMap r.style?).map Prod.fst).map Script.styleElementId := by
      rw [← h.style?_eq, ← hq.filterMap_styled?, h.style?_eq, ← hr.filterMap_styled?]
      have hsheets := congrArg (fun page ↦ (stylesheetsOf page).map Prod.fst) hpages
      simp only [stylesheetsOf_allStyles, List.map_map] at hsheets ⊢
      exact hsheets
    have hnames := List.map_injective_iff.mpr styleElementId_injective hids
    have hkeys : ∀ i ∈ q.styledKeys, (r.style? i).isSome := by
      intro i hi
      rw [← h.style?_eq]
      exact (List.mem_filter.mp hi).2
    rw [← hr.filterMap_owners hkeys, hnames]
    exact hr.filterMap_owners fun i hi ↦ (List.mem_filter.mp hi).2
  · intro hkeys
    rw [allStyles_eq, allStyles_eq, hq.filterMap_styled?, hr.filterMap_styled?, hkeys, h.style?_eq]

end IceCube.Registry
