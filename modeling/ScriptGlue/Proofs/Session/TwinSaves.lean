import Mathlib.Data.List.Forall2
import ScriptGlue.Proofs.Session.Operations
import ScriptGlue.Proofs.Session.TwinUnits

/-! # Saves of twin sessions

Twin sessions save the units of a type alike, in name, directory and text. The extension unit of a
module goes to the same place too; its forwarders are those of the methods, in the order in which
these were found.
-/
namespace ScriptGlue

/-- Units of one module with the same forwarders, in some order. -/
structure ExtensionUnit.Rearranged (a b : ExtensionUnit) : Prop where
  module : b.module = a.module
  space : b.space = a.space
  forwarders : a.forwarders.Perm b.forwarders

namespace Session
open ScriptGlue.Action

variable {f : TypeId → TypeId} {C : Setting} {s s' t u u' : Session} {name : Name}

def Housed (s : Session) : Prop := ∀ m ∈ s.registry, m.directory.truthy

theorem stepwise_housed : Stepwise Housed where
  faulted _ h := h
  refused _ _ h := h
  accepted _ _ _ _ h := h
  registered s m directory _ truthy h := by
    refine List.forall_mem_append.2 ⟨h, fun added hadded => ?_⟩
    rw [List.mem_singleton.1 hadded]
    exact truthy
  measured ref := Gated.isStructBlittable ⟨fun _ h => h, fun _ _ h => h, fun _ _ _ _ h => h⟩
    (fun _ _ h => h) ref
  marked _ _ h := h
  passedOver _ _ h := h
  extended _ _ h := h
  files _ _ h := h
  adopted _ _ _ h := h
  read _ _ _ _ _ _ _ h := h

theorem bare_of_target? {m : OutputModule} {filename : String} {x : Target}
    (truthy : m.directory.truthy) (nonempty : filename ≠ "") (slash : '/' ∉ filename.toList)
    (h : target? m filename = some x) : x.Bare := by
  unfold target? at h
  split at h
  · next directory found =>
    cases h
    rw [found] at truthy
    exact ⟨by simpa [Value.truthy] using truthy, nonempty, slash⟩
  · cases h

section
variable {r : Registry} {x : Target} (housed : ∀ m ∈ r, m.directory.truthy)
  (bare : '/' ∉ s.fileExtension.plain.toList)
include housed bare

theorem bare_of_typeTarget? {id : TypeId} (worded : (s.store.type id).name.Worded)
    (h : s.typeTarget? r id = some x) : x.Bare := by
  obtain ⟨word, isWord, named⟩ := Value.eq_text_of_worded worded
  obtain ⟨slash, nonempty⟩ := (isFile_of_typeTarget? bare isWord named h).bare false
  rw [← (isFile_of_typeTarget? bare isWord named h).filename] at slash nonempty
  obtain ⟨m, found, placed⟩ := Option.bind_eq_some_iff.1 h
  rw [filename_of_target? placed] at slash nonempty
  exact bare_of_target? (housed m (List.mem_of_find?_eq_some found)) nonempty slash placed

theorem bare_of_moduleTarget? (worded : name.Worded) (h : s.moduleTarget? r name = some x) :
    x.Bare := by
  obtain ⟨word, isWord, rfl⟩ := Value.eq_text_of_worded worded
  obtain ⟨slash, nonempty⟩ := (isFile_of_moduleTarget? bare isWord h).bare false
  rw [← (isFile_of_moduleTarget? bare isWord h).filename] at slash nonempty
  obtain ⟨m, found, placed⟩ := Option.bind_eq_some_iff.1 h
  rw [filename_of_target? placed] at slash nonempty
  exact bare_of_target? (housed m (List.mem_of_find?_eq_some found)) nonempty slash placed

end

/-- A module that was registered in the course of a batch is found with its own directory. -/
theorem registered_home (exact : C.exact)
    (named : ∀ m, C.modules m → ∀ m', C.modules m' → m.name.alike m'.name → m = m')
    {home : NativeModule} (hhome : C.modules home) (hu : During C s u) {m : OutputModule}
    (found : u.registry.find? home.name = some m) :
    m.name = home.name ∧ s.packaging.directory home = .ok m.directory := by
  obtain ⟨known, hknown, name, directory⟩ := hu.registry exact m (List.mem_of_find?_eq_some found)
  have alike := List.find?_some (p := fun m : OutputModule => m.name.alike home.name) found
  rw [← name] at alike
  obtain rfl := named known hknown home hhome alike
  exact ⟨name.symm, directory⟩

namespace Twins
variable (h : Twins f C s s') (hu : During C s u) (hu' : During C s' u')
include h hu hu'

theorem registered_same {home : NativeModule} (hhome : C.modules home) {m m' : OutputModule}
    (found : u.registry.find? home.name = some m) (found' : u'.registry.find? home.name = some m') :
    m = m' := by
  obtain ⟨name, directory⟩ := registered_home h.exact h.named hhome hu found
  obtain ⟨name', directory'⟩ := registered_home h.exact h.named hhome hu' found'
  rw [h.packaging] at directory'
  obtain ⟨_, _⟩ := m
  obtain ⟨_, _⟩ := m'
  cases name.trans name'.symm
  cases directory.symm.trans directory'
  rfl

theorem typeTarget?_same (fileExtension : s'.fileExtension = s.fileExtension) {id : TypeId}
    (hid : id < s.store.size) {x x' : Target} (hx : s.typeTarget? u.registry id = some x)
    (hx' : s'.typeTarget? u'.registry (f id) = some x') : x = x' := by
  obtain ⟨m, found, placed⟩ := Option.bind_eq_some_iff.1 hx
  obtain ⟨m', found', placed'⟩ := Option.bind_eq_some_iff.1 hx'
  rw [h.embeds.node id hid] at found'
  obtain rfl := h.registered_same hu hu' (h.knows.home id) found found'
  have filename : s'.unitFile (f id) = s.unitFile id := by
    rw [unitFile, unitFile, h.embeds.node id hid, fileExtension, TypeNode.relocate_label]
  rw [filename] at placed'
  exact Option.some_inj.1 (placed.symm.trans placed')

theorem isUnit_same (fileExtension : s'.fileExtension = s.fileExtension) {id : TypeId}
    (hid : id < s.store.size) {x x' : Save} (hx : IsUnit C s u.registry id x)
    (hx' : IsUnit C s' u'.registry (f id) x') : x = x' := by
  obtain ⟨code, made, text⟩ := hx.text
  obtain ⟨code', made', text'⟩ := hx'.text
  have target := h.typeTarget?_same hu hu' fileExtension hid hx.target hx'.target
  obtain ⟨_, _⟩ := x
  obtain ⟨_, _⟩ := x'
  cases target
  cases text
  cases text'
  rw [h.renders hid made made']

end Twins

theorem ExtensionMethod.relocate_library (f : TypeId → TypeId) (e : ExtensionMethod) :
    (e.relocate f).library = f e.library := rfl

/-- The save of an extension unit has the forwarders of the methods of its module. -/
theorem IsModuleUnit.forwarders (k : Knows C s) {r : Registry} {methods : List ExtensionMethod}
    {x : Save} (h : IsModuleUnit C s r methods name x) : ∃ m made, r.find? name = some m ∧
      target? m (m.unitName ++ s.fileExtension.plain) = some x.toTarget ∧
      List.Forall₂ (Forwards C s)
        (methods.filter fun e => (s.store.type e.library).home.name.alike name) made ∧
      x.text = ({ module := m.label, space := m.space, forwarders := made } : ExtensionUnit).code.text := by
  obtain ⟨target, m, t, u, unit, found, during, made, text⟩ := h
  obtain ⟨forwarders, v, hmapM, hunit⟩ := bind_eq_ok.1 made
  obtain ⟨rfl, rfl⟩ := pure_eq_ok.1 hunit
  refine ⟨m, forwarders, found, ?_, forwards_of_mapM k during hmapM, text⟩
  rwa [moduleTarget?, found, Option.bind_some] at target

namespace GraphTwins
variable (h : GraphTwins f C s s')
include h

theorem forwarders_same {methods : List ExtensionMethod} (inside : ∀ e ∈ methods, e.Inside s.store)
    {made made' : List Forwarder} (hmade : List.Forall₂ (Forwards C s) methods made)
    (hmade' : List.Forall₂ (Forwards C s') (methods.map (ExtensionMethod.relocate f)) made') :
    made = made' := by
  induction hmade generalizing made' with
  | nil =>
    cases hmade'
    rfl
  | cons first _ ih =>
    obtain ⟨he, hrest⟩ := List.forall_mem_cons.1 inside
    cases hmade' with
    | cons first' rest' => rw [h.forwards he first first', ih hrest rest']

theorem filter_home {methods : List ExtensionMethod} (inside : ∀ e ∈ methods, e.Inside s.store) :
    (methods.map (ExtensionMethod.relocate f)).filter
        (fun e => (s'.store.type e.library).home.name.alike name) =
      (methods.filter fun e => (s.store.type e.library).home.name.alike name).map
        (ExtensionMethod.relocate f) := by
  rw [List.filter_map]
  refine congrArg _ (List.filter_congr fun e he => ?_)
  rw [Function.comp_apply, ExtensionMethod.relocate_library, h.embeds.node _ (inside e he).library,
    TypeNode.relocate_home]

variable (hu : During C s u) (hu' : During C s' u')
include hu hu'

/-- Twin sessions save the extension unit of a module at the same place, with its forwarders in the
order of its methods. -/
theorem isModuleUnit_same (fileExtension : s'.fileExtension = s.fileExtension)
    {home : NativeModule} (hhome : C.modules home) (hname : home.name = name)
    {methods methods' : List ExtensionMethod} (inside : ∀ e ∈ methods, e.Inside s.store)
    (found : (methods.map (ExtensionMethod.relocate f)).Perm methods') {x x' : Save}
    (hx : IsModuleUnit C s u.registry methods name x)
    (hx' : IsModuleUnit C s' u'.registry methods' name x') :
    x.toTarget = x'.toTarget ∧ ∃ unit unit' : ExtensionUnit, x.text = unit.code.text ∧
      x'.text = unit'.code.text ∧ unit.Rearranged unit' ∧
      (methods.map (ExtensionMethod.relocate f) = methods' → unit = unit') := by
  obtain ⟨m, made, registered, target, forwards, text⟩ := hx.forwarders h.knows
  obtain ⟨m', made', registered', target', forwards', text'⟩ := hx'.forwarders h.knows'
  subst hname
  obtain rfl := h.registered_same hu hu' hhome registered registered'
  rw [fileExtension] at target'
  have inside' : ∀ e ∈ methods.filter fun e => (s.store.type e.library).home.name.alike home.name,
      e.Inside s.store := fun e he => inside e (List.mem_of_mem_filter he)
  refine ⟨Option.some_inj.1 (target.symm.trans target'), _, _, text, text', ⟨rfl, rfl, ?_⟩,
    fun same => ?_⟩
  · obtain ⟨between, forwarded, perm⟩ := List.perm_comp_forall₂ (found.filter _) forwards'
    rw [h.filter_home inside] at forwarded
    rw [h.forwarders_same inside' forwards forwarded]
    exact perm
  · rw [← same, h.filter_home inside] at forwards'
    rw [h.forwarders_same inside' forwards forwards']

theorem isModuleUnit_eq (fileExtension : s'.fileExtension = s.fileExtension) {home : NativeModule}
    (hhome : C.modules home) (hname : home.name = name) {methods methods' : List ExtensionMethod}
    (inside : ∀ e ∈ methods, e.Inside s.store)
    (found : methods.map (ExtensionMethod.relocate f) = methods') {x x' : Save}
    (hx : IsModuleUnit C s u.registry methods name x)
    (hx' : IsModuleUnit C s' u'.registry methods' name x') : x = x' := by
  obtain ⟨target, unit, unit', text, text', -, same⟩ :=
    h.isModuleUnit_same hu hu' fileExtension hhome hname inside (.of_eq found) hx hx'
  obtain ⟨_, _⟩ := x
  obtain ⟨_, _⟩ := x'
  cases target
  cases text
  cases text'
  rw [same found]

end GraphTwins

end Session

end ScriptGlue
