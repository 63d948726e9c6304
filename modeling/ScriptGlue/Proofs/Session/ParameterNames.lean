import Mathlib.Data.List.Pairwise
import ScriptGlue.Proofs.Session.ForwarderCalls

/-! # Names of parameters

A parameter is called by its native name with the mark of a truth value off and the first character
in lower case, and a keyword is escaped. Nothing looks at the other parameters or at what the member
declares itself, so names that differ in no more than this become one, and so may the name of a
parameter and a name that the invoker of an event has for its own use.
-/
namespace ScriptGlue
open ScriptGlue.Action

namespace Naming

/-- The two words become one identifier: they are one word, or one of them is what the other, a
keyword, is escaped to. -/
def Clash (a b : String) : Prop :=
  a = b ∨ a ∈ keywords ∧ b = "@" ++ a ∨ b ∈ keywords ∧ a = "@" ++ b

instance (a b : String) : Decidable (Clash a b) := by unfold Clash; infer_instance

theorem escapeWord_of_mem {word : String} (h : word ∈ keywords) : escapeWord word = "@" ++ word :=
  if_pos (List.contains_iff_mem.2 h)

theorem escapeWord_of_not_mem {word : String} (h : word ∉ keywords) : escapeWord word = word :=
  if_neg fun known => h (List.contains_iff_mem.1 known)

theorem escapeWord_eq_iff_clash (a b : String) : escapeWord a = escapeWord b ↔ Clash a b := by
  unfold Clash
  by_cases ha : a ∈ keywords <;> by_cases hb : b ∈ keywords
  · rw [escapeWord_of_mem ha, escapeWord_of_mem hb, String.append_right_inj]
    -- a keyword does not begin with the mark of an escaped one
    have plain : ∀ word ∈ keywords, word.toList.head? ≠ some '@' := by decide
    have marked (word : String) : ("@" ++ word).toList.head? = some '@' := by
      rw [String.toList_append]; rfl
    refine ⟨.inl, ?_⟩
    rintro (same | ⟨-, rfl⟩ | ⟨-, rfl⟩)
    · exact same
    · exact absurd (marked a) (plain _ hb)
    · exact absurd (marked b) (plain _ ha)
  · rw [escapeWord_of_mem ha, escapeWord_of_not_mem hb]
    constructor
    · exact fun same => .inr (.inl ⟨ha, same.symm⟩)
    · rintro (rfl | ⟨-, same⟩ | ⟨known, -⟩)
      exacts [absurd ha hb, same.symm, absurd known hb]
  · rw [escapeWord_of_not_mem ha, escapeWord_of_mem hb]
    constructor
    · exact fun same => .inr (.inr ⟨hb, same⟩)
    · rintro (rfl | ⟨known, -⟩ | ⟨-, same⟩)
      exacts [absurd hb ha, absurd known ha, same]
  · rw [escapeWord_of_not_mem ha, escapeWord_of_not_mem hb]
    simp [ha, hb]

end Naming

/-- What the invoker of an event calls its buffers and its result. -/
def EventStub.ownNames : List String := [buffer, returnBuffer, returnValue]

/-- One of the lines declares the parameters of a member. -/
def Parameter.DeclaredIn (ps : List Parameter) (code : Code) : Prop :=
  ∃ before after, Layout.line (before ++ printed ps ++ after) ∈ code

theorem Wrapper.declaredIn_code (w : Wrapper) : Parameter.DeclaredIn w.parameters w.code := by
  obtain ⟨before, code⟩ := w.code_printed
  exact ⟨_, _, code ▸ List.mem_append_right _ (List.mem_cons_self ..)⟩

theorem InterfaceMethod.declaredIn_code (m : InterfaceMethod) :
    Parameter.DeclaredIn m.parameters m.code :=
  ⟨_, _, m.code_printed ▸ List.mem_cons_self ..⟩

theorem EventStub.declaredIn_code (e : EventStub) : Parameter.DeclaredIn e.parameters e.code := by
  obtain ⟨before, code⟩ := e.code_printed
  refine ⟨"protected virtual " ++ e.returnType ++ " " ++ e.name ++ "_Implementation(", ")", ?_⟩
  rw [code]
  exact List.mem_append_left _ (List.mem_append_left _
    (List.mem_append_right _ (List.mem_cons_self ..)))

theorem EventStub.invoker_mem_code (e : EventStub) :
    .line ("void Invoke_" ++ e.native ++ "(IntPtr buffer, IntPtr returnBuffer)") ∈ e.code := by
  obtain ⟨before, code⟩ := e.code_printed
  rw [code]
  exact List.mem_append_right _ (List.mem_cons_self ..)

/-- What a parameter is called by before keywords are escaped. -/
def Property.stem (p : Property) : String :=
  Naming.lowerFirst (if p.kind = .bool then Naming.withoutBoolMark p.label else p.label)

namespace Naming

theorem text_of_parameter {kind : PropertyKind} {name shown : Name}
    (h : parameter kind name = .ok shown) : ∃ word, name = .text word := by
  have cased {name shown : Name} (h : (camelCase name >>= escapeKeyword) = .ok shown) :
      ∃ word, name = .text word := by
    cases name with
    | text word => exact ⟨word, rfl⟩
    | _ => cases h
  by_cases mark : kind = .bool
  · rw [parameter, unmarked, if_pos mark] at h
    cases stripped : stripBoolMark name with
    | error => rw [stripped] at h; cases h
    | ok rest =>
      rw [stripped] at h
      obtain ⟨word, rfl⟩ := cased h
      -- what is left of a list or an object is one again
      unfold stripBoolMark at stripped
      split at stripped <;> try split at stripped
      all_goals try split at stripped
      all_goals first | exact ⟨_, rfl⟩ | cases stripped
  · rw [parameter, unmarked, if_neg mark] at h
    exact cased h

end Naming

namespace Session

variable {s t : Session} {f : Function} {owner : Name} {p : Property}

theorem parameterName_plain {name : Name} (h : parameterName p = .ok name) :
    name.plain = Naming.escapeWord p.stem := by
  obtain ⟨word, text⟩ := Naming.text_of_parameter h
  rw [parameterName, text, Naming.parameter_text] at h
  cases h
  rw [Property.stem, Property.label, text]
  rfl

theorem names_of_mapM {ps : List Property} {qs : List Parameter}
    (h : ps.mapM parameter s = (.ok qs, t)) :
    qs.map Parameter.name = (ps.map Property.stem).map Naming.escapeWord := by
  symm
  rw [List.map_map, ← List.forall₂_eq_eq_eq, List.forall₂_map_left_iff, List.forall₂_map_right_iff]
  refine (mapM_eq_ok h).imp fun p q ⟨_, _, made⟩ => ?_
  obtain ⟨type, _, -, made⟩ := bind_eq_ok.1 made
  obtain ⟨name, _, hname, made⟩ := bind_eq_ok.1 made
  obtain ⟨rfl, -⟩ := pure_eq_ok.1 made
  exact (parameterName_plain (ofExcept_eq_ok.1 hname).1).symm

theorem wrapper_names {w : Wrapper} (h : wrapper f owner s = (.ok w, t)) :
    w.parameters.map Parameter.name = (f.arguments.map Property.stem).map Naming.escapeWord := by
  obtain ⟨_, _, -, h⟩ := bind_eq_ok.1 h
  obtain ⟨_, _, -, h⟩ := bind_eq_ok.1 h
  obtain ⟨parameters, _, shown, h⟩ := bind_eq_ok.1 h
  split at h
  all_goals
    obtain ⟨_, _, -, h⟩ := bind_eq_ok.1 h
    obtain ⟨rfl, -⟩ := pure_eq_ok.1 h
    exact names_of_mapM shown

theorem eventStub_names {e : EventStub} (h : eventStub f owner s = (.ok e, t)) :
    e.parameters.map Parameter.name = (f.arguments.map Property.stem).map Naming.escapeWord := by
  obtain ⟨_, _, -, h⟩ := bind_eq_ok.1 h
  obtain ⟨_, _, -, h⟩ := bind_eq_ok.1 h
  obtain ⟨parameters, _, shown, h⟩ := bind_eq_ok.1 h
  obtain ⟨_, _, -, h⟩ := bind_eq_ok.1 h
  obtain ⟨_, _, -, h⟩ := bind_eq_ok.1 h
  obtain ⟨_, _, -, h⟩ := bind_eq_ok.1 h
  obtain ⟨rfl, -⟩ := pure_eq_ok.1 h
  exact names_of_mapM shown

theorem interfaceMethod_names {m : InterfaceMethod} (h : interfaceMethod f owner s = (.ok m, t)) :
    m.parameters.map Parameter.name = (f.arguments.map Property.stem).map Naming.escapeWord := by
  obtain ⟨_, _, -, h⟩ := bind_eq_ok.1 h
  obtain ⟨_, _, -, h⟩ := bind_eq_ok.1 h
  obtain ⟨parameters, _, shown, h⟩ := bind_eq_ok.1 h
  obtain ⟨rfl, -⟩ := pure_eq_ok.1 h
  exact names_of_mapM shown

end Session

def Naming.Apart (words : List String) : Prop := words.Pairwise fun a b => ¬Clash a b

instance (words : List String) : Decidable (Naming.Apart words) := by
  unfold Naming.Apart; infer_instance

theorem Naming.nodup_escaped_iff {words : List String} :
    (words.map escapeWord).Nodup ↔ Apart words := by
  rw [List.Nodup, List.pairwise_map, Apart]
  simp only [ne_eq, escapeWord_eq_iff_clash]

theorem EventStub.ownNames_escaped : ownNames.map Naming.escapeWord = ownNames := by decide

namespace Session

/-- The parameters of a function have distinct names in its wrapper, in the method of an interface
and in the stub of an event if and only if what they are called by, without the mark of a truth value
and with the first character in lower case, is distinct and none is another, a keyword, as it is
escaped. The invoker of the event can tell them from the names it has for its own use if and only if
this holds of these names and theirs together. The headers are printed with these names. -/
theorem parameter_names_nodup_iff (f : Function) (owner : Name) (s : Session) :
    (∀ w t, wrapper f owner s = (.ok w, t) →
        ((w.parameters.map Parameter.name).Nodup ↔ Naming.Apart (f.arguments.map Property.stem)) ∧
          Parameter.DeclaredIn w.parameters w.code) ∧
      (∀ m t, interfaceMethod f owner s = (.ok m, t) →
        ((m.parameters.map Parameter.name).Nodup ↔ Naming.Apart (f.arguments.map Property.stem)) ∧
          Parameter.DeclaredIn m.parameters m.code) ∧
      ∀ e t, eventStub f owner s = (.ok e, t) →
        ((e.parameters.map Parameter.name).Nodup ↔
            Naming.Apart (f.arguments.map Property.stem)) ∧
          ((EventStub.ownNames ++ e.parameters.map Parameter.name).Nodup ↔
            Naming.Apart (EventStub.ownNames ++ f.arguments.map Property.stem)) ∧
          Parameter.DeclaredIn e.parameters e.code ∧
          .line ("void Invoke_" ++ e.native ++ "(IntPtr buffer, IntPtr returnBuffer)") ∈ e.code := by
  refine ⟨fun w t made => ⟨?_, w.declaredIn_code⟩, fun m t made => ⟨?_, m.declaredIn_code⟩,
    fun e t made => ⟨?_, ?_, e.declaredIn_code, e.invoker_mem_code⟩⟩
  · rw [wrapper_names made, Naming.nodup_escaped_iff]
  · rw [interfaceMethod_names made, Naming.nodup_escaped_iff]
  · rw [eventStub_names made, Naming.nodup_escaped_iff]
  · rw [eventStub_names made, ← Naming.nodup_escaped_iff, List.map_append,
      EventStub.ownNames_escaped]

/-- An event with parameters of these native names and kinds. -/
def eventNaming (params : List (String × PropertyKind)) : Function where
  name := .text "E"
  params := params.map fun (name, kind) => { name := .text name, kind, owner := .text "E" }
  flags := [.text (Flag.label .blueprintEvent)]
  owner := .text "C"

def classNaming (params : List (String × PropertyKind)) : TypeNode where
  name := .text "C"
  home := { name := .text "M" }
  body := .plainClass { functions := [eventNaming params] }

def namingSession : Session where
  packaging := { scriptsDir := .text "out" }

/-- Parameters that are told apart, though one is called by a keyword. -/
def tellingNames : List (String × PropertyKind) := [("Class", .int32), ("bBuffers", .bool)]

theorem tellingNames_makes :
    (match wrapper (eventNaming tellingNames) (.text "C") namingSession,
        interfaceMethod (eventNaming tellingNames) (.text "C") namingSession,
        eventStub (eventNaming tellingNames) (.text "C") namingSession with
    | (.ok w, _), (.ok _, _), (.ok _, _) =>
      w.parameters.map Parameter.name == ["@class", "buffers"]
    | _, _, _ => false) = true := by decide +kernel

theorem parameter_names_nodup_iff_of_telling : ∃ w m e t u v,
    wrapper (eventNaming tellingNames) (.text "C") namingSession = (.ok w, t) ∧
      interfaceMethod (eventNaming tellingNames) (.text "C") namingSession = (.ok m, u) ∧
      eventStub (eventNaming tellingNames) (.text "C") namingSession = (.ok e, v) ∧
      w.parameters.map Parameter.name = ["@class", "buffers"] ∧
      (w.parameters.map Parameter.name).Nodup ∧ (m.parameters.map Parameter.name).Nodup ∧
      (EventStub.ownNames ++ e.parameters.map Parameter.name).Nodup := by
  have makes := tellingNames_makes
  split at makes
  · next w t m u e v called declared handled =>
    obtain ⟨ofWrapper, ofMethod, ofStub⟩ :=
      parameter_names_nodup_iff (eventNaming tellingNames) (.text "C") namingSession
    exact ⟨w, m, e, t, u, v, called, declared, handled, beq_iff_eq.1 makes,
      (ofWrapper _ _ called).1.2 (by decide +kernel), (ofMethod _ _ declared).1.2 (by decide +kernel),
      (ofStub _ _ handled).2.1.2 (by decide +kernel)⟩
  · cases makes

/-- A truth value, a number of its name without the mark, and a number called like a buffer. -/
def clashingNames : List (String × PropertyKind) :=
  [("bHidden", .bool), ("Hidden", .int32), ("Buffer", .int32)]

theorem clashingNames_makes :
    (match canExportFunction (classNaming clashingNames) (eventNaming clashingNames) namingSession,
        wrapper (eventNaming clashingNames) (.text "C") namingSession,
        interfaceMethod (eventNaming clashingNames) (.text "C") namingSession,
        eventStub (eventNaming clashingNames) (.text "C") namingSession with
    | (.ok passed, _), (.ok w, _), (.ok m, _), (.ok e, _) => passed &&
      w.parameters.map Parameter.name == ["hidden", "hidden", "buffer"] &&
      m.parameters.map Parameter.name == ["hidden", "hidden", "buffer"] &&
      e.parameters.map Parameter.name == ["hidden", "hidden", "buffer"]
    | _, _, _, _ => false) = true := by decide +kernel

/-- Distinct native names that differ in the mark of a truth value make one name, and the buffer that
an invoker is given is hidden by a parameter of its name. -/
theorem parameter_names_clash : ∃ w m e t u v,
    ((eventNaming clashingNames).params.map Property.label).Nodup ∧
      (∃ x, canExportFunction (classNaming clashingNames) (eventNaming clashingNames)
        namingSession = (.ok true, x)) ∧
      wrapper (eventNaming clashingNames) (.text "C") namingSession = (.ok w, t) ∧
      interfaceMethod (eventNaming clashingNames) (.text "C") namingSession = (.ok m, u) ∧
      eventStub (eventNaming clashingNames) (.text "C") namingSession = (.ok e, v) ∧
      ¬(w.parameters.map Parameter.name).Nodup ∧ ¬(m.parameters.map Parameter.name).Nodup ∧
      ¬(e.parameters.map Parameter.name).Nodup ∧
      EventStub.buffer ∈ e.parameters.map Parameter.name := by
  have makes := clashingNames_makes
  split at makes
  · next passed x w t m u e v gate called declared handled =>
    simp only [Bool.and_eq_true, beq_iff_eq] at makes
    obtain ⟨⟨⟨rfl, ofWrapper⟩, ofMethod⟩, ofStub⟩ := makes
    exact ⟨w, m, e, t, u, v, by decide +kernel, ⟨x, gate⟩, called, declared, handled,
      by rw [ofWrapper]; decide, by rw [ofMethod]; decide, by rw [ofStub]; decide,
      by rw [ofStub]; decide⟩
  · cases makes

end Session
end ScriptGlue
