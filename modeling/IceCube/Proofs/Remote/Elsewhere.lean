import IceCube.Proofs.Remote.Carrying
import IceCube.Proofs.Remote.Page
import IceCube.Proofs.Remote.Workers

/-!
# Calls that another worker carries out

A call that one registry carries out for a component is carried out by every other one of its
configuration that knows the component.  One that does not know it turns the call down: a call asks
for the name of a component, and names are not compiled.  A registry that has booted from sources
knows all that were directly in the source directories, but those further down it compiles when their
identifiers are asked for, each registry for itself.
-/

namespace IceCube

open Step Component

namespace Config

variable {config : Config} {i code : String} {t : FileTree} {w v : World} {record : Record}
  {home : RegistryId}

/-! ## Fetching a class -/

/-- A class of the component is at hand, and nothing has happened but that classes and entries of
registries have come. -/
structure Fetched (i code : String) (w : World) (c : Nat) (v : World) : Prop where
  comes : Resolve.Comes i code v.classes c
  world : ∃ registries cs, v = { w with registries := registries, classes := w.classes ++ cs }

/-- Whichever registry has fetched the class, what is done with it is done alike. -/
theorem Fetched.alike (hw : config.Serves i code w) {c c' : Nat} {v' : World}
    (h : Fetched i code w c v) (h' : Fetched i code w c' v') :
    World.Alike v.classes v'.classes v v' ∧ v'.classes.lineage c' = v.classes.lineage c := by
  refine ⟨?_, h.comes.lineage_eq h'.comes⟩
  obtain ⟨registries, cs, rfl⟩ := h.world
  obtain ⟨registries', cs', rfl⟩ := h'.world
  -- an object that is there keeps its class, and that its lineage
  have hlineage (ys : Classes) (inst : Instance) (hinst : inst ∈ w.objects) :
      Classes.lineage (w.classes ++ ys) inst.classId = w.classes.lineage inst.classId :=
    hw.grounded.lineage_eq le_rfl (fun n hn ↦ List.getElem?_append_left hn) (hw.objects inst hinst)
  refine ⟨rfl, rfl, rfl, rfl, rfl, rfl, List.forall₂_same.mpr fun inst hinst ↦ ⟨rfl, ?_⟩⟩
  exact (hlineage cs' inst hinst).trans (hlineage cs inst hinst).symm

/-- A record that is found under the name of a component is that of its identifier. -/
theorem Faithful.get?_of_getByName? {r : Registry} (h : config.Faithful i code t r)
    (hrecord : r.getByName? (Identifier.flatten i) = some record) :
    r.get? i = some record ∧ config.Leads i code t record := by
  obtain ⟨k, hk, hget⟩ := Option.bind_eq_some_iff.mp hrecord
  obtain rfl := h.owner k hk
  exact ⟨hget, h.record record hget⟩

theorem outcome_resolve_of_get? (hget : (w.registry home).get? i = some record) :
    outcome (Resolve.resolve home i false) w =
      match Table.get? (w.registry home).loaded i with
      | some c => (.ok c, w)
      | none => outcome (do
          let c ← Resolve.load record
          Run.changeRegistry home (·.setLoaded i c)
          return c) w := by
  have hrecord : outcome (Resolve.record home i false) w = (.ok (some record), w) := by
    rw [Resolve.record, outcome_get_bind]
    dsimp only
    rw [hget]
    rfl
  rw [Resolve.resolve, outcome_get_bind]
  cases Table.get? (w.registry home).loaded i with
  | some c => rfl
  | none => exact outcome_bind_of_ok hrecord _

section Fetching

variable (hsound : ∀ e ∈ config.compilers, e.2.Sound) (hw : config.Serves i code w)
  (hget : (w.registry home).get? i = some record)
include hsound hw hget

theorem fetched_of_resolve {c : Nat}
    (h : outcome (Resolve.resolve home i false) w = (.ok c, v)) : Fetched i code w c v := by
  rw [outcome_resolve_of_get? hget] at h
  split at h
  · rename_i hloaded
    cases h
    exact ⟨hw.loaded home c hloaded, w.registries, [], by rw [List.append_nil]⟩
  · obtain ⟨c, u, hload, h⟩ := outcome_bind_eq_ok.mp h
    cases h
    obtain ⟨cs, k, hdefines, rfl, rfl⟩ :=
      (((hw.faithful home).record record hget).outcome_load_eq_ok_iff hsound).mp hload
    exact ⟨hdefines.comes w.classes, _, _, rfl⟩

/-- Code that has defined the class in one place does so in every other. -/
theorem exists_resolve_of_comes {cs : Classes} {k : Nat} (hcomes : Resolve.Comes i code cs k) :
    ∃ c v, outcome (Resolve.resolve home i false) w = (.ok c, v) := by
  rw [outcome_resolve_of_get? hget]
  split
  · exact ⟨_, _, rfl⟩
  · obtain ⟨xs, k, hdefines, -⟩ := hcomes.defined
    have hload := (((hw.faithful home).record record hget).outcome_load_eq_ok_iff hsound).mpr
      ⟨xs, k, hdefines, rfl, rfl⟩
    rw [outcome_bind_of_ok hload]
    exact ⟨_, _, rfl⟩

end Fetching

end Config

namespace Remote

/-! ## One call for two registries -/

variable {config : Config} {i code : String} {v v' w w₁ : World} {home home' : RegistryId}
  {payload : Json} {call : RemoteCall} {signature given : Option String} {r : CallResult}

/-- A call that one registry carries out for a component is carried out by every other one that has a
record under its name. -/
theorem exists_accepted_elsewhere (hsound : ∀ e ∈ config.compilers, e.2.Sound)
    (hw : config.Serves i code w) (hcall : Schema.remoteCall .value payload = .good call)
    (hname : call.component = Identifier.flatten i)
    (haccepted : outcome (handle home payload signature given) w = (.ok r, w₁))
    (hknown : ((w.registry home').getByName? call.component).isSome = true) :
    ∃ w₂, outcome (handle home' payload signature given) w = (.ok r, w₂) := by
  obtain ⟨hsigned, c, v, hclass, hcarried⟩ := (outcome_handle_eq_ok_iff hcall).mp haccepted
  obtain ⟨a, ha, hresolve, hice⟩ := outcome_componentClass_eq_ok_iff.mp hclass
  obtain ⟨b, hb⟩ := Option.isSome_iff_exists.mp hknown
  rw [hname] at ha
  obtain ⟨hget, hleads⟩ := (hw.faithful home).get?_of_getByName? ha
  obtain ⟨hget', hleads'⟩ := (hw.faithful home').get?_of_getByName? (hname ▸ hb)
  rw [hleads.identifier] at hresolve
  have hfetched := Config.fetched_of_resolve hsound hw hget hresolve
  obtain ⟨c', v', hresolve'⟩ := Config.exists_resolve_of_comes hsound hw hget' hfetched.comes
  have hfetched' := Config.fetched_of_resolve hsound hw hget' hresolve'
  obtain ⟨halike, hlineage⟩ := hfetched.alike hw hfetched'
  obtain ⟨_, w₂, hcarried', rfl, -⟩ :=
    follows_carryOut hlineage call halike hcarried
  refine ⟨w₂, (outcome_handle_eq_ok_iff hcall).mpr ⟨hsigned, c', v', ?_, hcarried'⟩⟩
  refine outcome_componentClass_eq_ok_iff.mpr ⟨b, hb, ?_, ?_⟩
  · rw [hleads'.identifier]
    exact hresolve'
  · rw [Classes.isIce_of_lineage hlineage]
    exact hice

/-- A call is carried out under the name of a record only. -/
theorem known_of_accepted (hcall : Schema.remoteCall .value payload = .good call)
    (haccepted : outcome (handle home payload signature given) w = (.ok r, w₁)) :
    ((w.registry home).getByName? call.component).isSome = true := by
  obtain ⟨-, c, u, hclass, -⟩ := (outcome_handle_eq_ok_iff hcall).mp haccepted
  obtain ⟨record, hrecord, -⟩ := outcome_componentClass_eq_ok_iff.mp hclass
  rw [hrecord]
  rfl

/-- A call that one registry carries out for a component is carried out by another one of the
configuration, with the same result, exactly if that has a record under the name that the call gives.
Since it has booted from sources it has one for every component whose source was directly in a source
directory, whatever it has resolved. -/
theorem accepted_elsewhere_iff_known (hsound : ∀ e ∈ config.compilers, e.2.Sound)
    (hw : config.Working i code w) (hcall : Schema.remoteCall .value payload = .good call)
    (hname : call.component = Identifier.flatten i)
    (haccepted : outcome (handle home payload signature given) w = (.ok r, w₁))
    (home' : RegistryId) :
    ((∃ w₂, outcome (handle home' payload signature given) w = (.ok r, w₂)) ↔
      ((w.registry home').getByName? call.component).isSome = true) ∧
    ∀ v v' compilers, config.Working i code v →
      outcome (Run.build home' (Boot.boot home' false config)) v = (.ok compilers, v') →
      config.Later i code v' w → (∃ e ∈ config.compilers, i ∈ e.2.identifiers v.files) →
      ∃ w₂, outcome (handle home' payload signature given) w = (.ok r, w₂) := by
  have hserves := hw.serves hsound
  have haccept (hknown : ((w.registry home').getByName? call.component).isSome = true) :
      ∃ w₂, outcome (handle home' payload signature given) w = (.ok r, w₂) :=
    exists_accepted_elsewhere hsound hserves hcall hname haccepted hknown
  refine ⟨⟨fun ⟨w₂, h⟩ ↦ known_of_accepted hcall h, haccept⟩,
    fun v v' compilers hv hboot hlater ⟨e, he, hi⟩ ↦ haccept ?_⟩
  rw [Run.outcome_build] at hboot
  obtain ⟨hok, rfl⟩ := Prod.mk.inj hboot
  have hknows := Boot.knows_of_boot hsound (hv.serves hsound).provides (Prod.ext hok rfl) he hi
  rw [hname]
  refine (hlater.knows ?_).isSome_getByName?
  rw [World.registry_withWorkspace, if_pos rfl]
  exact hknows

/-! ## A source in the source directory, and one further down -/

/-- The source of a component without state. -/
def kioskCode (name : String) : String :=
  "define(r'''\x7b\"class\": \"" ++ name ++
    "\", \"render\": \x7b\"node\": \x7b\"tag\": \"b\"\x7d\x7d\x7d''')"

def kioskConfig : Config where
  compilers := [("ui", ⟨"app", ⟨.slash, ["ui"]⟩, ⟨.slash, ["out"]⟩, ⟨.slash, ["out"]⟩, "u",
    .embedded, .scopingOnly, false, none⟩)]

/-- One source, some directories below the source directory. -/
def kioskFiles (below : List String) (name : String) : FileTree where
  nodes := [([], .directory FileTree.parentMode), (["ui"], .directory FileTree.parentMode)] ++
    below.map (fun d ↦ (["ui", d], .directory FileTree.parentMode)) ++
    [("ui" :: below ++ [name ++ Compiler.sourceSuffix],
      .file (Utf8.encode (kioskCode name)) FileTree.fileMode 0)]
  current := []
  clock := 1

def kiosk (below : List String) (name : String) : World :=
  .start (kioskFiles below name) ⟨none, some "key"⟩

theorem sound_kioskConfig : ∀ e ∈ kioskConfig.compilers, e.2.Sound :=
  List.forall_mem_singleton.mpr ⟨by decide, by decide, by decide, by decide, nofun⟩

/-- The code of the card. -/
def cardCode : String := Source.codeSection (kioskCode "Card")

/-- No identifier but that of the card has its name, and its source has its code. -/
theorem provides_kioskConfig :
    kioskConfig.Provides "app.Card" cardCode (kioskFiles [] "Card") where
  sound := by decide +kernel
  name := by decide
  apart e he p hp := by
    cases List.mem_singleton.mp he
    cases hp
  caches e he p hp := by
    cases List.mem_singleton.mp he
    cases hp
  sources e he j source text htakes hj htext hflat := by
    cases List.mem_singleton.mp he
    have hbelow (name : String)
        (h : Identifier.flatten (Identifier.below "app" name) = Identifier.flatten "app.Card") :
        name = "Card" := by
      have hlist : (Identifier.flatten "app" ++ "_").toList ++ (Identifier.flatten name).toList =
          (Identifier.flatten "app" ++ "_").toList ++ "Card".toList := by
        rw [← Identifier.flatten_below "app" name, h]
        decide
      have hname := String.toList_injective (List.append_cancel_left hlist)
      exact Identifier.eq_of_flatten_eq hname (by decide)
    have hcard : j = "app.Card" ∧ source = ⟨.slash, ["ui", "Card.ice.py"]⟩ := by
      cases htakes with
      | named base =>
        cases hbelow base hflat
        exact ⟨rfl, by decide⟩
      | led h =>
        obtain ⟨name, rfl⟩ := Identifier.after?_isSome_iff.mp h
        cases hbelow name hflat
        exact ⟨rfl, by decide⟩
    obtain ⟨rfl, rfl⟩ := hcard
    obtain ⟨content, ⟨mode, modified, hnode⟩, hdecode⟩ := htext
    have hcontent : content = Utf8.encode (kioskCode "Card") := by
      cases hnode
      rfl
    rw [hcontent, Utf8.decode_encode] at hdecode
    cases hdecode
    exact ⟨rfl, rfl⟩

/-- The page of the card. -/
def cardPage : Page := pageOf "app_Card" []

/-- Two registries boot from sources, and the first of them resolves an identifier. -/
def opening (i : String) : Run ClassId := do
  let _ ← Run.build "second" (Boot.boot "second" false kioskConfig)
  let _ ← Run.build "first" (Boot.boot "first" false kioskConfig)
  Resolve.resolve "first" i false

/-- The second registry has never resolved the card, and takes its page back all the same. -/
theorem card_is_accepted_elsewhere : ∃ c w r w₁ w₂,
    outcome (opening "app.Card") (kiosk [] "Card") = (.ok c, w) ∧
    outcome (handle "first" cardPage.payload (some cardPage.signature) none) w = (.ok r, w₁) ∧
    outcome (handle "second" cardPage.payload (some cardPage.signature) none) w = (.ok r, w₂) := by
  have hruns : (outcome (do
      let _ ← opening "app.Card"
      handle "first" cardPage.payload (some cardPage.signature) none)
      (kiosk [] "Card")).1.toOption.isSome = true := by decide +kernel
  obtain ⟨r, w₁, hrun, -⟩ := exists_outcome_eq_ok (P := fun _ ↦ True) hruns trivial
  obtain ⟨c, w, hopening, haccepted⟩ := outcome_bind_eq_ok.mp hrun
  obtain ⟨compilers, v, hsecond, hrest⟩ := outcome_bind_eq_ok.mp hopening
  obtain ⟨_, u, hfirst, hresolve⟩ := outcome_bind_eq_ok.mp hrest
  have hstart : kioskConfig.Working "app.Card" cardCode (kiosk [] "Card") :=
    ⟨_, _, provides_kioskConfig, .refl⟩
  have hlater : kioskConfig.Later "app.Card" cardCode v w :=
    .tail (.single (.boot hfirst)) (.resolve hresolve (by decide))
  have hworking : kioskConfig.Working "app.Card" cardCode w :=
    ⟨_, _, provides_kioskConfig, .head (.boot hsecond) hlater⟩
  have hpage : cardPage.Signed "key" [] := signed_pageOf (by decide : "app_Card" ≠ "") []
  obtain ⟨w₂, haccepted'⟩ := (accepted_elsewhere_iff_known sound_kioskConfig hworking
    hpage.remoteCall_payload (by decide) haccepted "second").2 _ v compilers hstart hsecond hlater
      ⟨_, List.mem_singleton.mpr rfl, by decide +kernel⟩
  exact ⟨c, w, r, w₁, w₂, hopening, haccepted, haccepted'⟩

/-- A component is made without state, and its page is rendered. -/
def shownPage (c : ClassId) : Run Page := do
  let o ← Component.instantiate Dispatch.full c []
  match Page.ofHtml? (← Dispatch.full.text o) with
  | some page => return page
  | none => throw .mismatch

/-- The source of a panel is one directory further down.  The first registry compiles it when it is
asked to, and takes the page of the panel back; the second one does not know the name. -/
theorem nested_panel_is_unknown_elsewhere : ∃ c w page w₁ r w₂,
    outcome (opening "app.admin.Panel") (kiosk ["admin"] "Panel") = (.ok c, w) ∧
    w.classes.isIce c = true ∧
    outcome (shownPage c) w = (.ok page, w₁) ∧
    outcome (handle "first" page.payload (some page.signature) none) w₁ = (.ok r, w₂) ∧
    ∀ r' w', outcome (handle "second" page.payload (some page.signature) none) w₁ ≠ (.ok r', w') := by
  -- whether the class is one of components, and whether the second registry knows the name
  have hruns : (outcome (do
      let c ← opening "app.admin.Panel"
      let ice := (← get).classes.isIce c
      let page ← shownPage c
      let second := (← get).registry "second"
      let _ ← handle "first" page.payload (some page.signature) none
      match Schema.remoteCall .value page.payload with
      | .good call => return (ice, (second.getByName? call.component).isSome)
      | .bad _ => throw .mismatch) (kiosk ["admin"] "Panel")).1.toOption = some (true, false) := by
    decide +kernel
  obtain ⟨answer, w₂, hrun, -⟩ := exists_outcome_eq_ok (P := fun _ ↦ True)
    (Option.isSome_of_eq_some hruns) trivial
  have hanswer : answer = (true, false) := by
    rw [hrun] at hruns
    exact Option.some.inj hruns
  obtain ⟨c, w, hopening, hrun⟩ := outcome_bind_eq_ok.mp hrun
  rw [outcome_get_bind] at hrun
  obtain ⟨page, w₁, hshown, hrun⟩ := outcome_bind_eq_ok.mp hrun
  rw [outcome_get_bind] at hrun
  obtain ⟨r, w₃, haccepted, hrun⟩ := outcome_bind_eq_ok.mp hrun
  cases hcall : Schema.remoteCall .value page.payload with
  | bad issues =>
    rw [hcall] at hrun
    cases hrun
  | good call =>
    rw [hcall, outcome_pure, hanswer] at hrun
    simp only [Prod.mk.injEq, Except.ok.injEq] at hrun
    obtain ⟨⟨hice, hunknown⟩, -⟩ := hrun
    refine ⟨c, w, page, w₁, r, w₃, hopening, hice, hshown, haccepted, fun r' w' h ↦ ?_⟩
    rw [known_of_accepted hcall h] at hunknown
    cases hunknown

end Remote

end IceCube
